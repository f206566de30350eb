import RainMeta.Config.Load
import RainMeta.Platform.Usual
import RainMeta.Proofs.Config.Expansion
import RainMeta.Proofs.Config.Grammar

/-!
# What parsing accepts

A JSON object whose variables can be expanded is parsed to a configuration exactly if it is
written as this configuration, and otherwise refused by the schema, never by the models
(`RainMeta.Config.parse_accepts_grammar`). There is one exception. What the schema says about a
value may show the value, and an integer of too many digits cannot be shown; so parsing crashes
where it should refuse if what it would say shows such an integer
(`RainMeta.Config.parse_crashes_longDocument`).

Most of this is in the grammar of configurations, which schema and models both agree with. What
is left is to follow a document through the stages of parsing: expanded, it is a JSON object
still; the schema that it is checked against is the one for configurations, whatever the registry
has been asked before (`RainMeta.Registry.IsPackaged.validate`); and the models come last, when it
is known that the document is a configuration.
-/

namespace RainMeta

open Grammar

/-! ### The schema of a registry -/

/-- **A registry that has only the schema for configurations**: the known one, which may have been
looked up already. -/
structure Registry.IsPackaged (r : Registry) : Prop where
  source : r.source = .packaged
  known : ∀ s, r.known.find? SchemaSource.configurationName = some s → s = Schema.configuration

theorem Registry.isPackaged_new : Registry.IsPackaged { source := .packaged } where
  source := rfl
  known := by rintro s ⟨⟩

section Packaged

variable [Platform]

theorem SchemaSource.schema_packaged (tree : FileTree) :
    SchemaSource.schema tree .packaged configurationName = .ok Schema.configuration := by
  rfl

/-- Under whatever name it is found, the packaged schema is the one for configurations. -/
theorem SchemaSource.eq_of_schema_packaged {tree : FileTree} {name : Text} {s : Schema}
    (h : SchemaSource.schema tree .packaged name = .ok s) : s = Schema.configuration := by
  rw [SchemaSource.schema] at h
  split at h
  · cases h
    rfl
  · cases h

/-- **Looking a schema up keeps a registry packaged.** -/
theorem Registry.IsPackaged.schema {r : Registry} (hr : r.IsPackaged) (tree : FileTree)
    (name : Text) : (r.schema tree name).2.IsPackaged := by
  rw [Registry.schema]
  split
  · exact hr
  rcases hknown : r.known.find? name.strip with _ | s
  · rcases hs : r.source.schema tree name.strip with fault | s
    · exact hr
    · refine ⟨hr.source, fun s' hs' => ?_⟩
      rw [Table.find?_set] at hs'
      split at hs'
      · cases hs'
        exact SchemaSource.eq_of_schema_packaged (hr.source ▸ hs)
      · exact hr.known s' hs'
  · exact hr

/-- **Validation keeps a registry packaged**, whatever is validated. -/
theorem Registry.IsPackaged.validate {r : Registry} (hr : r.IsPackaged) (tree : FileTree)
    (name : Text) (v : Value) : (r.validate tree name v).2.IsPackaged :=
  hr.schema tree name

/-- A document is checked against the schema for configurations. -/
theorem Registry.IsPackaged.validate_eq {r : Registry} (hr : r.IsPackaged) (tree : FileTree)
    (v : Value) : (r.validate tree SchemaSource.configurationName v).1 =
      Registry.check SchemaSource.configurationName Schema.configuration v := by
  have hstrip : SchemaSource.configurationName.strip = SchemaSource.configurationName := by rfl
  have hschema : (r.schema tree SchemaSource.configurationName).1 = .ok Schema.configuration := by
    rw [Registry.schema, hstrip, hr.source, SchemaSource.schema_packaged]
    rcases hknown : r.known.find? SchemaSource.configurationName with _ | s
    · rfl
    · rw [hr.known s hknown]
      rfl
  rw [Registry.validate]
  simp only [hschema]
  rfl

end Packaged

/-- An object is checked as it is. -/
theorem Registry.check_mapping (name : Text) (s : Schema) (entries : List (Value × Value)) :
    check name s (.mapping entries) =
      ((s.violations (.mapping entries)).mapError .digits).bind fun violations =>
        match Violation.best? violations with
        | none => .ok ()
        | some violation =>
          .error (.refusal (.violated name violation.location violation.message)) := rfl

/-- **What a check comes to**: nothing to say, a refusal, or words that cannot be found. -/
theorem Registry.check_cases (name : Text) (s : Schema) {v : Value}
    (hv : ∃ entries, v = .mapping entries) :
    (s.Allows v ∧ ¬s.ShowsLong v ∧ check name s v = .ok ()) ∨
      ¬s.Allows v ∧ (¬s.ShowsLong v ∧ (∃ location message,
        check name s v = .error (.refusal (.violated name location message))) ∨
      s.ShowsLong v ∧ check name s v = .error (.digits ⟨none⟩)) := by
  obtain ⟨entries, rfl⟩ := hv
  have hdecides := s.decides_violations (.mapping entries)
  rw [check_mapping]
  generalize s.violations (.mapping entries) = violations at hdecides ⊢
  cases hdecides with
  | allowed hp hlong => exact Or.inl ⟨hp, hlong, rfl⟩
  | broken hp hlong => exact Or.inr ⟨hp, Or.inl ⟨hlong, _, _, rfl⟩⟩
  | unspoken hp hlong => exact Or.inr ⟨hp, Or.inr ⟨hlong, rfl⟩⟩

namespace Config

variable {tree : FileTree} {env : Environment} {r : Registry} {source : Text} {payload v : Value}

/-- **How a document is refused**: by what the schema says about it, unless this shows an integer of
too many digits. -/
def IsRefusal (source : Text) (v : Value) (fault : ConfigFault) : Prop :=
  ¬Schema.configuration.ShowsLong v ∧ (∃ location message, fault = .problem source
    (.schema (.violated SchemaSource.configurationName location message))) ∨
  Schema.configuration.ShowsLong v ∧ fault = .crash (.digits ⟨none⟩)

section Parsing

variable [Platform]

/-- **What the schema comes to**, for a JSON object. -/
theorem checked_cases (tree : FileTree) (source : Text) (hr : r.IsPackaged)
    (hv : v.IsJsonObject) :
    (∃ c, IsConfig c v) ∧ checked tree r source v = .ok () ∨
      (¬∃ c, IsConfig c v) ∧
        ∃ fault, checked tree r source v = .error fault ∧ IsRefusal source v fault := by
  rw [← describes_configuration v hv.1, checked, hr.validate_eq]
  obtain ⟨hallows, -, hcheck⟩ | ⟨hallows, ⟨hlong, location, message, hcheck⟩ | ⟨hlong, hcheck⟩⟩ :=
    Registry.check_cases SchemaSource.configurationName Schema.configuration hv.2
  · rw [hcheck]
    exact Or.inl ⟨hallows, rfl⟩
  · rw [hcheck]
    exact Or.inr ⟨hallows, _, rfl, Or.inl ⟨hlong, location, message, rfl⟩⟩
  · rw [hcheck]
    exact Or.inr ⟨hallows, _, rfl, Or.inr ⟨hlong, rfl⟩⟩

theorem isJsonObject_of_expanded (hpayload : payload.IsJsonObject)
    (hv : expanded env source payload = .ok v) : v.IsJsonObject := by
  rw [expanded] at hv
  rcases he : Expansion.expand env payload with e | w
  · rw [he] at hv
    cases hv
  · rw [he] at hv
    cases hv
    exact Expansion.isJsonObject_of_expand hpayload he

/-- Parsing a document whose expansion the schema refuses. -/
theorem parse_eq_error {fault : ConfigFault} (hv : expanded env source payload = .ok v)
    (hcheck : checked tree r source v = .error fault) :
    parse tree env r none source payload = .error fault := by
  rw [parse, hv]
  change (checked tree r source v >>= _) = _
  rw [hcheck]
  rfl

/-- Parsing a document whose expansion the schema allows comes down to the models. -/
theorem parse_eq_ok {c : Config} (hv : expanded env source payload = .ok v)
    (hcheck : checked tree r source v = .ok ()) (hmodel : Config.ofDocument v = .ok c) :
    parse tree env r none source payload = .ok c := by
  rw [parse, hv]
  change (checked tree r source v >>= _) = _
  rw [hcheck]
  change ((Config.ofDocument v).mapError _ >>= _) = _
  rw [hmodel]
  rfl

/-- **Parsing accepts the grammar of configurations**, for a JSON object whose variables can be
expanded: it comes to a configuration exactly if the expanded document is written as this one. All
else is refused by the schema, but where the schema would have to show an integer of too many
digits, and there parsing crashes. The models never refuse anything. -/
theorem parse_accepts_grammar (hr : r.IsPackaged) (hpayload : payload.IsJsonObject)
    (hv : expanded env source payload = .ok v) :
    (∀ c, parse tree env r none source payload = .ok c ↔ IsConfig c v) ∧
      ∀ fault, parse tree env r none source payload = .error fault → IsRefusal source v fault := by
  have hobject := isJsonObject_of_expanded hpayload hv
  obtain ⟨⟨c, hc⟩, hcheck⟩ | ⟨hnone, fault, hcheck, hrefusal⟩ :=
    checked_cases tree source hr hobject
  · have hparses {c : Config} (hc : IsConfig c v) :=
      parse_eq_ok hv hcheck (ofDocument_of_isConfig hobject.1 hc)
    refine ⟨fun c' => ⟨fun h => ?_, hparses⟩, fun fault h => ?_⟩
    · cases (hparses hc).symm.trans h
      exact hc
    · cases (hparses hc).symm.trans h
  · have hparse := parse_eq_error hv hcheck
    refine ⟨fun c => iff_of_false (fun h => ?_) fun hc => hnone ⟨c, hc⟩, fun fault' h => ?_⟩
    · cases hparse.symm.trans h
    · cases hparse.symm.trans h
      exact hrefusal

end Parsing

/-! ### A document that is parsed, and one that is not -/

/-- A document with a deployer, in which the directory is given by a variable. -/
def shortDocument : Value := .object [
  ("deployers", .object [("0x01", .object [("parser", .text "p.json"), ("store", .text "s.json"),
    ("interpreter", .text "i.json"), ("expressionDeployer", .text "e.json"),
    ("constructionMeta", .object [("hex", .text "c.hex")])])]),
  ("include", .list [.text "${DIR:-lib}"])]

/-- The same with the variable expanded. -/
def shortExpanded : Value := .object [
  ("deployers", .object [("0x01", .object [("parser", .text "p.json"), ("store", .text "s.json"),
    ("interpreter", .text "i.json"), ("expressionDeployer", .text "e.json"),
    ("constructionMeta", .object [("hex", .text "c.hex")])])]),
  ("include", .list [.text "lib"])]

/-- The configuration in it. -/
def shortConfig : Config where
  roots := [Path.ofText "lib"]
  deployers := [("0x01", {
    constructionMeta := .hex (Path.ofText "c.hex")
    expressionDeployer := Path.ofText "e.json"
    parser := Path.ofText "p.json"
    store := Path.ofText "s.json"
    interpreter := Path.ofText "i.json" })]

/-- The file tree does not matter, so there is nothing in it. -/
def nothing : FileTree := { root := .directory [], workingDirectory := [] }

theorem isJsonObject_shortDocument : shortDocument.IsJsonObject := by
  refine ⟨?_, _, rfl⟩
  have htext (t : Text) : (Value.text t).IsJson := .text t
  have hlist (t : Text) : (Value.list [.text t]).IsJson :=
    .list (List.forall_mem_singleton.mpr (htext t))
  simp only [shortDocument, Value.isJson_object_iff, List.forall_mem_cons, htext, hlist,
    List.not_mem_nil, false_imp_iff, implies_true, true_and, and_true]
  exact ⟨by decide, by decide, by decide, by decide⟩

/-- The configuration is parsed, so the document is written as it. -/
theorem isConfig_shortExpanded :
    parse nothing ⟨[]⟩ { source := .packaged } none unnamedSource shortDocument =
      .ok shortConfig ∧ IsConfig shortConfig shortExpanded := by
  have hparse : parse nothing ⟨[]⟩ { source := .packaged } none unnamedSource shortDocument =
      .ok shortConfig := by decide +kernel
  have hexpanded : expanded ⟨[]⟩ unnamedSource shortDocument = .ok shortExpanded := by cbv
  exact ⟨hparse, ((parse_accepts_grammar Registry.isPackaged_new isJsonObject_shortDocument
    hexpanded).1 shortConfig).mp hparse⟩

/-- A document with an integer of too many digits in place of a list. -/
def longDocument : Value := .object [("include", .int (Nat.pow 16 4000 - 1 : Nat))]

/-- **A document that is no configuration and is not refused by the schema**: parsing crashes on
it. -/
theorem parse_crashes_longDocument : longDocument.IsJsonObject ∧
    expanded ⟨[]⟩ unnamedSource longDocument = .ok longDocument ∧
    (¬∃ c, IsConfig c longDocument) ∧
    parse nothing ⟨[]⟩ { source := .packaged } none unnamedSource longDocument =
      .error (.crash (.digits ⟨none⟩)) := by
  have hobject : longDocument.IsJsonObject :=
    ⟨Value.isJson_object_iff.mpr ⟨by decide, List.forall_mem_singleton.mpr (.int _)⟩, _, rfl⟩
  have hcheck : checked nothing { source := .packaged } unnamedSource longDocument =
      .error (.crash (.digits ⟨none⟩)) := by decide +kernel
  have hexpanded : expanded ⟨[]⟩ unnamedSource longDocument = .ok longDocument := by rfl
  refine ⟨hobject, hexpanded, ?_, parse_eq_error hexpanded hcheck⟩
  rcases checked_cases nothing unnamedSource Registry.isPackaged_new hobject with h | h
  · cases h.2.symm.trans hcheck
  · exact h.1

end Config

end RainMeta
