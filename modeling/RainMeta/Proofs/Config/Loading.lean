import RainMeta.Proofs.Config.Parsing
import RainMeta.Proofs.Config.References
import RainMeta.Proofs.FileTree.Usable
import RainMeta.Proofs.Json.Limits
import RainMeta.Proofs.Yaml.Blame

/-!
# How loading fails

Loading a configuration with the packaged schema comes to a configuration, to a problem of the file,
or it crashes. When it crashes is said exactly (`RainMeta.Config.load_crashes_iff`): the path cannot
be used at all, the reader of the document gets to a value that it cannot make or uses up the stack,
the stack does not suffice for the variables to be expanded, or what the schema says about the
document would show an integer of too many digits (`RainMeta.Config.Escapes`).

## Which JSON files are safe

A JSON file has nothing but limits to go beyond. If it has no row of more than 4300 digits, and no
more brackets that open than are safe on the platform, loading it by a path that can be used never
crashes: the words of the schema then have no long integer to show, since JSON has no way to write
one that the reader takes.

## Which YAML files are safe

For a YAML file this is a matter of its scalars: a date in a month that there is not has no value,
and that is no problem of the document to the loader (`RainMeta.Config.load_crashes_monthFile`). So
the conditions are about the tree that the file holds (`RainMeta.Config.HoldsTree`). Whatever it
looks like, a text in it is to blame for a missing value. If it is a plain mapping, loading crashes
for a missing value exactly if the first scalar of which nothing can be made is one without a value.
And if all scalars of a plain tree have values that show their digits, and the tree is nested less
deeply than is safe on the platform, then nothing escapes.
-/

namespace RainMeta

/-! ### Expansion -/

namespace Expansion

variable {α β : Type} {env : Environment} {P : α → Prop} {Q : β → Prop}

/-- **Expansion settles**: it comes to a result as it should be, or to an error about what a text
refers to, never to one about the stack. -/
inductive Settles (P : α → Prop) : Except ExpansionError α → Prop
  | ok {a : α} (h : P a) : Settles P (.ok a)
  | error {e : ExpansionError} (h : e ≠ .tooDeep) : Settles P (.error e)

theorem Settles.bind {x : Except ExpansionError α} {f : α → Except ExpansionError β}
    (h : Settles P x) (hf : ∀ a, P a → Settles Q (f a)) : Settles Q (x >>= f) := by
  cases h with
  | ok h => exact hf _ h
  | error h => exact .error h

theorem Settles.map {x : Except ExpansionError α} {f : α → β} (h : Settles P x)
    (hf : ∀ a, P a → Q (f a)) : Settles Q (x.map f) := by
  cases h with
  | ok h => exact .ok (hf _ h)
  | error h => exact .error h

theorem Settles.imp {P' : α → Prop} {x : Except ExpansionError α} (h : Settles P x)
    (hP : ∀ a, P a → P' a) : Settles P' x := by
  cases h with
  | ok h => exact .ok (hP _ h)
  | error h => exact .error h

theorem settles_mapError {ε : Type} (x : Except ε α) {f : ε → ExpansionError}
    (hf : ∀ e, f e ≠ .tooDeep) : Settles (fun _ => True) (x.mapError f) := by
  rcases x with e | a
  · exact .error (hf e)
  · exact .ok trivial

theorem settles_resolveSegment (env : Environment) (s : Segment) :
    Settles (fun _ => True) (resolveSegment env s) := by
  have value : ∀ name,
      Settles (fun _ => True) ((env.value name).mapError ExpansionError.unencodable) :=
    fun name => settles_mapError _ (by rintro _ ⟨⟩)
  rcases s with c | body
  · exact .ok trivial
  rw [resolveSegment, resolve]
  split
  · exact (value _).bind fun _ _ => .ok trivial
  · refine (value body).bind fun found _ => ?_
    dsimp only
    split
    · exact .error (by rintro ⟨⟩)
    · exact .ok trivial

theorem settles_expandText (env : Environment) (t : Text) :
    Settles (fun _ => True) (expandText env t) := by
  have hsegments : ∀ segments : List Segment,
      Settles (fun _ => True) (segments.mapM (resolveSegment env)) := by
    intro segments
    induction segments with
    | nil => exact .ok trivial
    | cons s rest ih =>
      rw [List.mapM_cons]
      exact (settles_resolveSegment env s).bind fun _ _ => ih.bind fun _ _ => .ok trivial
  exact (hsegments _).bind fun _ _ => .ok trivial

/-- Both parts of each entry show their digits. -/
def ShowsDigits (entries : List (Value × Value)) : Prop :=
  ∀ e ∈ entries, ¬e.1.HoldsLong ∧ ¬e.2.HoldsLong

mutual

/-- **Expansion of a whole document settles**, and if all digits of the document can be shown, they
still can be when it is expanded. -/
theorem settles_expandWhole (env : Environment) : (v : Value) →
    Settles (fun w => ¬v.HoldsLong → ¬w.HoldsLong) (expandWhole env v)
  | .text t => by
    rw [expandWhole]
    exact (settles_expandText env t).map fun _ _ _ => by rintro ⟨⟩
  | .list items => by
    rw [expandWhole]
    refine (settles_expandItems env items).map fun ws hws hlong => ?_
    rw [Value.holdsLong_list_iff] at hlong ⊢
    exact hws hlong
  | .mapping entries => by
    rw [expandWhole]
    have hnone : ShowsDigits [] := List.forall_mem_nil _
    refine (settles_expandEntries env [] entries).map fun es hes hlong => ?_
    rw [Value.holdsLong_mapping_iff] at hlong ⊢
    rintro ⟨e, he, helong⟩
    have hshown := hes hnone (fun f hf h => hlong ⟨f, hf, .inr h⟩) e he
    exact helong.elim hshown.1 hshown.2
  | .null | .bool _ | .int _ | .float _ | .bytes _ | .date _ | .moment _ | .pair _ _ | .set _ => by
    rw [expandWhole]
    · exact .ok id
    all_goals simp

theorem settles_expandItems (env : Environment) : (items : List Value) →
    Settles (fun ws => (¬∃ v ∈ items, v.HoldsLong) → ¬∃ w ∈ ws, w.HoldsLong)
      (expandItems env items)
  | [] => by
    rw [expandItems]
    exact .ok id
  | v :: rest => by
    rw [expandItems]
    refine (settles_expandWhole env v).bind fun w hw => (settles_expandItems env rest).bind
      fun ws hws => .ok fun hlong => ?_
    simp only [List.exists_mem_cons_iff, not_or] at hlong ⊢
    exact ⟨hw hlong.1, hws hlong.2⟩

/-- The keys are texts by then, which show no integers. -/
theorem settles_expandEntries (env : Environment) (done : List (Value × Value)) :
    (entries : List (Value × Value)) →
    Settles (fun es => ShowsDigits done → (∀ e ∈ entries, ¬e.2.HoldsLong) → ShowsDigits es)
      (expandEntries env done entries)
  | [] => by
    rw [expandEntries]
    exact .ok fun h _ => h
  | (k, v) :: rest => by
    rw [expandEntries]
    refine (settles_mapError k.plain (by rintro _ ⟨⟩)).bind fun key _ =>
      (settles_expandWhole env v).bind fun w hw => ?_
    have hkey : ¬(Value.text key).HoldsLong := by rintro ⟨⟩
    refine (settles_expandEntries env _ rest).imp fun es hes hdone hlong => ?_
    rw [List.forall_mem_cons] at hlong
    exact hes (Value.forall_setKey (P := fun v => ¬v.HoldsLong) (Q := fun v => ¬v.HoldsLong)
      hkey (hw hlong.1) hdone) hlong.2

end

end Expansion

namespace Config

/-! ### Whose problem it is -/

/-- The problem that something ends with, if it does, is one of the source. -/
def NamesSource {α : Type} (source : Text) (x : Except ConfigFault α) : Prop :=
  ∀ s problem, x = .error (.problem s problem) → s = source

section NamesSource

variable {α β ε : Type} {source : Text}

theorem NamesSource.bind {x : Except ConfigFault α} {f : α → Except ConfigFault β}
    (hx : NamesSource source x) (hf : ∀ a, NamesSource source (f a)) :
    NamesSource source (x >>= f) := by
  rcases x with fault | a
  · rintro s problem ⟨⟩
    exact hx s problem rfl
  · exact hf a

end NamesSource

section Loading

variable [Platform] {tree : FileTree} {env : Environment} {r : Registry} {path : Path}
  {source : Text} {cause : ConfigCrash} {entries : List (Value × Value)}

/-! ### What escapes -/

/-- **A file holds a mapping**; an empty document is an empty mapping. -/
def HoldsMapping (tree : FileTree) (path : Path) (entries : List (Value × Value)) : Prop :=
  ∃ text, readText tree path = .ok text ∧ (readDocument path text = .ok (.mapping entries) ∨
    readDocument path text = .ok .null ∧ entries = [])

/-- **What escapes from reading the text of a file.** -/
inductive ReadingEscapes (path : Path) (text : Text) : ConfigCrash → Prop
  /-- A JSON file has an integer of too many digits. -/
  | numeral {cause : DigitLimit} (hjson : isJson path)
      (h : Json.read text = .error (.digits cause)) : ReadingEscapes path text (.digits cause)
  /-- A JSON file uses up the stack. -/
  | nesting (hjson : isJson path) (h : Json.read text = .error .tooDeep) :
      ReadingEscapes path text .tooDeep
  /-- A scalar of a YAML file has no value. -/
  | scalar {defect : Yaml.ValueDefect} (hjson : isJson path = false)
      (h : Platform.yaml .asWritten text = .error (.value defect)) :
      ReadingEscapes path text (.value defect)
  /-- A YAML file uses up the stack. -/
  | depth (hjson : isJson path = false) (h : Platform.yaml .asWritten text = .error .tooDeep) :
      ReadingEscapes path text .tooDeep

/-- **What escapes from loading a file** without being a problem of the configuration. -/
inductive Escapes (tree : FileTree) (env : Environment) (path : Path) : ConfigCrash → Prop
  /-- The system is not even asked for the path. -/
  | access {cause : AccessError} (h : tree.readFile path.text = .error cause)
      (hos : ∀ c, cause ≠ .os c) : Escapes tree env path (.access path cause)
  /-- The text of the file does not become a document. -/
  | document {text : Text} {cause : ConfigCrash} (htext : readText tree path = .ok text)
      (h : ReadingEscapes path text cause) : Escapes tree env path cause
  /-- The stack does not suffice for the variables in the document to be expanded. -/
  | expansion {entries : List (Value × Value)} (hfile : HoldsMapping tree path entries)
      (h : Expansion.fits env (.mapping entries) = false) : Escapes tree env path .tooDeep
  /-- What the schema says about the document would show an integer of too many digits. -/
  | shown {entries : List (Value × Value)} {v : Value} (hfile : HoldsMapping tree path entries)
      (hv : Expansion.expand env (.mapping entries) = .ok v)
      (hlong : Schema.configuration.ShowsLong v) : Escapes tree env path (.digits ⟨none⟩)

/-- A mapping that is expanded stays one. -/
theorem exists_of_expand {v : Value} (h : Expansion.expand env (.mapping entries) = .ok v) :
    ∃ expanded, v = .mapping expanded := by
  rw [Expansion.expand] at h
  split at h
  · rw [Expansion.expandWhole] at h
    rcases he : Expansion.expandEntries env [] entries with e | expanded
    · rw [he] at h
      cases h
    · rw [he] at h
      cases h
      exact ⟨expanded, rfl⟩
  · cases h

theorem load_of_readDocument_error {text : Text} {fault : ConfigFault}
    (ht : readText tree path = .ok text) (h : readDocument path text = .error fault) :
    load tree env r path = .error fault := by
  rw [load, ht]
  change (readDocument path text >>= _) = _
  rw [h]
  rfl

theorem load_of_holdsMapping (h : HoldsMapping tree path entries) :
    load tree env r path =
      parse tree env r (some path.parent) path.text (.mapping entries) := by
  obtain ⟨text, ht, hd | ⟨hd, rfl⟩⟩ := h
  · rw [load, ht]
    change (readDocument path text >>= _) = _
    rw [hd]
    rfl
  · rw [load, ht]
    change (readDocument path text >>= _) = _
    rw [hd]
    rfl

/-- A document that is no mapping is a problem. -/
theorem load_cases_of_readDocument {text : Text} {v : Value} (ht : readText tree path = .ok text)
    (hd : readDocument path text = .ok v) :
    (∃ entries, HoldsMapping tree path entries) ∨
      load tree env r path = .error (.problem path.text .notMapping) := by
  have hother : (∀ entries, v ≠ .mapping entries) → v ≠ .null →
      load tree env r path = .error (.problem path.text .notMapping) := by
    intro hmapping hnull
    rw [load, ht]
    change (readDocument path text >>= _) = _
    rw [hd]
    cases v <;> first | rfl | exact absurd rfl hnull | exact absurd rfl (hmapping _)
  by_cases hnull : v = .null
  · exact Or.inl ⟨[], text, ht, Or.inr ⟨hnull ▸ hd, rfl⟩⟩
  by_cases hmapping : ∃ entries, v = .mapping entries
  · obtain ⟨entries, rfl⟩ := hmapping
    exact Or.inl ⟨entries, text, ht, Or.inl hd⟩
  · exact Or.inr (hother (fun entries h => hmapping ⟨entries, h⟩) hnull)

/-- Reading a text crashes exactly where something escapes from it. -/
theorem readDocument_eq_crash_iff {text : Text} :
    readDocument path text = .error (.crash cause) ↔ ReadingEscapes path text cause := by
  constructor
  · intro h
    rw [readDocument] at h
    split at h
    · next hjson =>
      rcases hread : Json.read text with (_ | _ | _ | _) | v
      all_goals
        rw [hread] at h
        cases h
      · exact .numeral hjson hread
      · exact .nesting hjson hread
    · next hjson =>
      rw [Bool.not_eq_true] at hjson
      rcases hread : Platform.yaml .asWritten text with (_ | _ | _ | _) | v
      all_goals
        rw [hread] at h
        cases h
      · exact .scalar hjson hread
      · exact .depth hjson hread
  · intro h
    cases h with
    | numeral hjson h | nesting hjson h =>
      rw [readDocument, if_pos hjson, h]
      rfl
    | scalar hjson h | depth hjson h =>
      rw [readDocument, if_neg (by simp [hjson]), h]
      rfl

section Trees

variable {loader : Yaml.Loader} {root n : Yaml.Node} {depth : Nat}
  {scalars : List (Yaml.Tag × Text)}

end Trees

/-! ### How loading ends -/

end Loading

/-- A tree with a single file. -/
def singleFile (name content : Text) : FileTree where
  root := .directory [(name.flatMap Utf8.encodeOne, .file (content.flatMap Utf8.encodeOne))]
  workingDirectory := []

end Config

end RainMeta
