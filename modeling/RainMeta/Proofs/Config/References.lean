import Mathlib.Data.List.Forall2
import RainMeta.Platform.Usual
import RainMeta.Proofs.Config.Expansion
import RainMeta.Proofs.Config.Segments
import RainMeta.Proofs.FileTree.Usable
import RainMeta.Proofs.Json.Limits

/-!
# What references stand for

The reference semantics of expansion. What a segment of a text stands for is said by a relation
(`RainMeta.Expansion.StandsFor`): a code point for itself, and a reference for the value of the
variable that it names, if that is set and not blank, or else for its default. A reference that
stands for nothing is unresolved. What a text becomes is put together of what its segments stand
for (`RainMeta.Expansion.TextBecomes`), so nothing that is put in is read again; and a document
becomes one of the same shape (`RainMeta.Expansion.Becomes`).

Expansion is compared with this by one notion (`RainMeta.Expansion.Exact`): a result is a value
exactly if the relation holds of it, and an error exactly if one of a list of references is
unresolved, and then it names the first of them. Results that are exact may be put one after the
other (`RainMeta.Expansion.Exact.bind`); the lists of references are joined in that order. So the
proof follows the text from references to segments, texts and documents, and the order in which
references are looked at is the one in which they stand in the document.

As expansion knows of the environment only what references come to, and each of these only the
variable that it names (`RainMeta.Expansion.resolve_congr`), no other variable matters
(`RainMeta.Expansion.expand_exact`).
-/

namespace RainMeta

/-! ### Variables -/

theorem Text.strip_eq_nil_iff {t : Text} : t.strip = [] ↔ ∀ c ∈ t, c.isBlank := by
  rw [strip, trimBy, List.reverse_eq_nil_iff, List.dropWhile_eq_nil_iff]
  constructor
  · intro h
    -- what is left starts with something that is not blank
    rw [← List.dropWhile_eq_nil_iff]
    by_contra hne
    have hblank := h _ (List.mem_reverse.mpr (List.head_mem hne))
    rw [List.head_dropWhile_not _ hne] at hblank
    cases hblank
  · intro h c hc
    exact h c ((List.dropWhile_suffix _).subset (List.mem_reverse.mp hc))

/-- The value of a variable, if it is set: variables are told apart by the bytes of their
names. -/
def Environment.lookup? (env : Environment) (name : Text) : Option Text :=
  (env.bindings.find? fun v =>
    (Utf8.encodeEscaped v.1).toOption = (Utf8.encodeEscaped name).toOption).map Prod.snd

/-- **The value of a variable that is set and not blank.** -/
def Environment.filled? (env : Environment) (name : Text) : Option Text :=
  (env.lookup? name).filter fun value => value.any fun c => !c.isBlank

/-- **A text without surrogates.** -/
def Text.Scalar (t : Text) : Prop :=
  ∀ c ∈ t, c.isSurrogate = false

instance (t : Text) : Decidable t.Scalar :=
  inferInstanceAs (Decidable (∀ c ∈ t, c.isSurrogate = false))

theorem Environment.value_eq (env : Environment) {name : Text} (h : name.Scalar) :
    env.value name = .ok ((env.lookup? name).getD []) := by
  have hencode : Utf8.encodeEscaped name = .ok (name.flatMap Utf8.encodeOneEscaped) :=
    Utf8.encodeEscaped_eq_ok_iff.mpr ⟨fun c hc hs => by simp [h c hc] at hs, rfl⟩
  rw [value, lookup?, hencode]
  refine congrArg (fun isKey => Except.ok (((env.bindings.find? isKey).map Prod.snd).getD []))
    (funext fun v => ?_)
  rcases Utf8.encodeEscaped v.1 with e | b
  · simp [Except.toOption]
  · rw [Bool.eq_iff_iff]
    simp [Except.toOption]

/-- A variable that is not set has an empty value, and so it counts as blank. -/
theorem Environment.exists_value (env : Environment) {name : Text} (h : name.Scalar) :
    ∃ value, env.value name = .ok value ∧
      env.filled? name = if value.strip.isEmpty then none else some value := by
  refine ⟨_, env.value_eq h, ?_⟩
  rw [filled?]
  rcases env.lookup? name with _ | value
  · rfl
  · have hblank : value.strip.isEmpty ↔ ¬(value.any fun c => !c.isBlank) = true := by
      rw [List.isEmpty_iff, Text.strip_eq_nil_iff]
      simp
    rw [Option.getD_some, Option.filter]
    split
    · next hany => rw [if_neg (mt hblank.mp (not_not.mpr hany))]
    · next hany => rw [if_pos (hblank.mpr hany)]

namespace Expansion

variable {env : Environment}

/-! ### Results -/

/-- **A reference is unresolved** if it has no default and its variable is not set or blank. -/
def Unresolved (env : Environment) (body : Text) : Prop :=
  ¬defaultMark <:+: body ∧ env.filled? body = none

instance (env : Environment) (body : Text) : Decidable (Unresolved env body) :=
  inferInstanceAs (Decidable (_ ∧ _))

/-- **A result is exact** about references: it is a value exactly if the value has a property, and
it is an error exactly if one of the references is unresolved, and names the first one. -/
structure Exact {α : Type} (env : Environment) (references : List Text) (P : α → Prop)
    (x : Except ExpansionError α) : Prop where
  ok : ∀ a, x = .ok a ↔ P a
  error : ∀ e, x = .error e ↔
    ∃ body, e = .missing body ∧ references.find? (Unresolved env ·) = some body

section Exact

variable {α β : Type} {references rest : List Text} {P Q : α → Prop} {x : Except ExpansionError α}

theorem exact_ok (env : Environment) (a : α) : Exact env [] (· = a) (.ok a) where
  ok b := by simp [eq_comm]
  error e := by simp

/-- The result of a reference that is resolved. -/
theorem exact_ok_of_resolved {body : Text} (h : ¬Unresolved env body) (a : α) :
    Exact env [body] (· = a) (.ok a) where
  ok b := by simp [eq_comm]
  error e := by simp [h]

theorem exact_missing {body : Text} (h : Unresolved env body) :
    Exact env [body] (fun _ : α => False) (.error (.missing body)) where
  ok b := by simp
  error e := by simp [h, eq_comm]

theorem Exact.congr (h : Exact env references P x) (hPQ : ∀ a, P a ↔ Q a) :
    Exact env references Q x where
  ok a := (h.ok a).trans (hPQ a)
  error := h.error

/-- Where there is a value, every reference is resolved. -/
theorem Exact.find?_eq_none {a : α} (h : Exact env references P (.ok a)) :
    references.find? (Unresolved env ·) = none := by
  rw [Option.eq_none_iff_forall_ne_some]
  intro body hbody
  cases (h.error _).mpr ⟨body, rfl, hbody⟩

/-- **Results one after the other.** The references of the first one come first. -/
theorem Exact.bind {R : α → β → Prop} {f : α → Except ExpansionError β}
    (hx : Exact env references P x) (hf : ∀ a, P a → Exact env rest (R a) (f a)) :
    Exact env (references ++ rest) (fun b => ∃ a, P a ∧ R a b) (x >>= f) := by
  rcases x with e | a
  · obtain ⟨body, rfl, hfind⟩ := (hx.error e).mp rfl
    have herror : (Except.error (.missing body) : Except ExpansionError α) >>= f =
        .error (.missing body) := rfl
    constructor
    · intro b
      rw [herror]
      refine iff_of_false (by simp) ?_
      rintro ⟨a, ha, -⟩
      cases (hx.ok a).mpr ha
    · intro e
      rw [herror, List.find?_append, hfind, Option.some_or]
      simp [eq_comm]
  · have ha := (hx.ok a).mp rfl
    have hok : (Except.ok a : Except ExpansionError α) >>= f = f a := rfl
    constructor
    · intro b
      rw [hok, (hf a ha).ok b]
      constructor
      · exact fun hb => ⟨a, ha, hb⟩
      · rintro ⟨a', ha', hb⟩
        cases (hx.ok a').mpr ha'
        exact hb
    · intro e
      rw [hok, (hf a ha).error e, List.find?_append, hx.find?_eq_none, Option.none_or]

theorem Exact.map (hx : Exact env references P x) (f : α → β) :
    Exact env references (fun b => ∃ a, P a ∧ b = f a) (x.map f) := by
  have hbind := hx.bind fun a _ => exact_ok env (f a)
  rw [List.append_nil] at hbind
  rcases x with e | a
  · exact hbind
  · exact hbind

/-- **Results of a list** of items, from left to right. -/
theorem Exact.mapM {l : List α} {f : α → Except ExpansionError β} {references : α → List Text}
    {R : α → β → Prop} (h : ∀ a ∈ l, Exact env (references a) (R a) (f a)) :
    Exact env (l.flatMap references) (List.Forall₂ R l) (l.mapM f) := by
  induction l with
  | nil =>
    rw [List.mapM_nil]
    exact (exact_ok env []).congr fun bs => by simp
  | cons a l ih =>
    rw [List.forall_mem_cons] at h
    rw [List.mapM_cons, List.flatMap_cons]
    refine (h.1.bind fun b _ => (ih h.2).map (b :: ·)).congr fun bs => ?_
    rw [List.forall₂_cons_left_iff]
    simp only [exists_and_left]

end Exact

/-! ### Texts -/

/-- **What a segment stands for.** -/
inductive StandsFor (env : Environment) : Segment → Text → Prop
  | plain (c : CodePoint) : StandsFor env (.plain c) [c]
  /-- A reference stands for the value of its variable. -/
  | value {body name value : Text} {default? : Option Text} (hname : Names body name default?)
      (hvalue : env.filled? name = some value) : StandsFor env (.reference body) value
  /-- Without one it stands for its default. -/
  | default {body name default : Text} (hname : Names body name (some default))
      (hnone : env.filled? name = none) : StandsFor env (.reference body) default

/-- **What a text becomes**: its segments are replaced by what they stand for. -/
def TextBecomes (env : Environment) (t u : Text) : Prop :=
  ∃ segments texts, Segment.Reading t segments ∧ List.Forall₂ (StandsFor env) segments texts ∧
    u = texts.flatten

section Cut

variable {body name default u : Text}

theorem standsFor_iff_of_cutAt_eq_some (h : Text.cutAt defaultMark body = some (name, default)) :
    StandsFor env (.reference body) u ↔ u = (env.filled? name).getD default := by
  constructor
  · rintro (_ | @⟨_, n, _, default?, hname, hvalue⟩ | ⟨hname, hnone⟩)
    · rcases default? with _ | d
      · rw [names_none_iff, h] at hname
        cases hname.2
      · rw [names_some_iff, h] at hname
        cases hname
        rw [hvalue, Option.getD_some]
    · rw [names_some_iff, h] at hname
      cases hname
      rw [hnone, Option.getD_none]
  · rintro rfl
    rcases hv : env.filled? name with _ | value
    · exact .default (names_some_iff.mpr h) hv
    · exact .value (names_some_iff.mpr h) hv

theorem standsFor_iff_of_cutAt_eq_none (h : Text.cutAt defaultMark body = none) :
    StandsFor env (.reference body) u ↔ env.filled? body = some u := by
  constructor
  · rintro (_ | @⟨_, n, _, default?, hname, hvalue⟩ | ⟨hname, hnone⟩)
    · rcases default? with _ | d
      · rw [names_none_iff] at hname
        rwa [hname.1] at hvalue
      · rw [names_some_iff, h] at hname
        cases hname
    · rw [names_some_iff, h] at hname
      cases hname
  · exact fun hv => .value (names_none_iff.mpr ⟨rfl, h⟩) hv

theorem not_unresolved_of_cutAt_eq_some
    (h : Text.cutAt defaultMark body = some (name, default)) : ¬Unresolved env body := by
  rintro ⟨hmark, -⟩
  rw [← Text.cutAt_eq_none_iff, h] at hmark
  cases hmark

end Cut

/-- A reference is resolved by the variable that it names. -/
theorem resolve_eq (env : Environment) {body : Text} (h : body.Scalar) :
    resolve env body = match Text.cutAt defaultMark body with
      | some (name, default) => .ok ((env.filled? name).getD default)
      | none => match env.filled? body with
        | some value => .ok value
        | none => .error (.missing body) := by
  rw [resolve]
  rcases hcut : Text.cutAt defaultMark body with _ | ⟨name, default⟩
  · obtain ⟨value, hvalue, hfilled⟩ := env.exists_value h
    simp only [hvalue, hfilled, Except.mapError, bind, Except.bind, pure, Except.pure]
    by_cases hblank : value.strip.isEmpty
    · simp only [hblank, if_true]
      rfl
    · simp [hblank]
  · have hname : name.Scalar := fun c hc => h c (by
      rw [(Text.cutAt_eq_some_iff.mp hcut).1]
      simp [hc])
    obtain ⟨value, hvalue, hfilled⟩ := env.exists_value hname
    simp only [hvalue, hfilled, Except.mapError, bind, Except.bind, pure, Except.pure]
    by_cases hblank : value.strip.isEmpty
    · simp [hblank]
    · simp [hblank]

/-- **What a reference is resolved to**, and when it is not. -/
theorem exact_resolve (env : Environment) {body : Text} (h : body.Scalar) :
    Exact env [body] (StandsFor env (.reference body)) (resolve env body) := by
  rw [resolve_eq env h]
  rcases hcut : Text.cutAt defaultMark body with _ | ⟨name, default⟩
  · have hmark := Text.cutAt_eq_none_iff.mp hcut
    rcases hfilled : env.filled? body with _ | value
    · refine (exact_missing ⟨hmark, hfilled⟩).congr fun u => ?_
      rw [standsFor_iff_of_cutAt_eq_none hcut, hfilled]
      simp
    · have hresolved : ¬Unresolved env body := by
        rintro ⟨-, hnone⟩
        rw [hfilled] at hnone
        cases hnone
      refine (exact_ok_of_resolved hresolved value).congr fun u => ?_
      rw [standsFor_iff_of_cutAt_eq_none hcut, hfilled, Option.some.injEq, eq_comm]
  · exact (exact_ok_of_resolved (not_unresolved_of_cutAt_eq_some hcut) _).congr fun u =>
      (standsFor_iff_of_cutAt_eq_some hcut).symm

theorem exact_resolveSegment (env : Environment) {segment : Segment}
    (h : ∀ body, segment.body? = some body → body.Scalar) :
    Exact env segment.body?.toList (StandsFor env segment) (resolveSegment env segment) := by
  cases segment with
  | plain c =>
    refine (exact_ok env [c]).congr fun u => ?_
    constructor
    · rintro rfl
      exact .plain c
    · rintro ⟨⟩
      rfl
  | reference body => exact exact_resolve env (h body rfl)

/-- **What a text is expanded to**, and when it is not. -/
theorem exact_expandText (env : Environment) {t : Text} (h : t.Scalar) :
    Exact env (Segment.bodies t) (TextBecomes env t) (expandText env t) := by
  have hsegment : ∀ segment ∈ Segment.split t, Exact env segment.body?.toList
      (StandsFor env segment) (resolveSegment env segment) := fun segment hmem =>
    exact_resolveSegment env fun body hbody c hc =>
      h c (Segment.mem_of_mem_bodies (List.mem_filterMap.mpr ⟨segment, hmem, hbody⟩) hc)
  rw [Segment.bodies, List.filterMap_eq_flatMap_toList]
  refine ((Exact.mapM hsegment).map List.flatten).congr fun u => ?_
  simp only [TextBecomes, Segment.reading_iff, exists_and_left, exists_eq_left]

end Expansion

/-! ### Documents -/

/-- A new key comes last. -/
theorem Entries.set_eq_concat {κ ν : Type} [DecidableEq κ] {k : κ} {v : ν}
    {entries : List (κ × ν)} (h : k ∉ entries.map Prod.fst) :
    Entries.set k v entries = entries ++ [(k, v)] := by
  induction entries with
  | nil => rfl
  | cons e rest ih =>
    rw [List.map_cons, List.mem_cons, not_or] at h
    rw [Entries.set, if_neg (Ne.symm h.1), ih h.2, List.cons_append]

namespace Value

mutual

/-- The text values of a document in the order in which they stand there. Keys are not among
them. -/
def texts : Value → List Text
  | .text t => [t]
  | .list items => textsOfItems items
  | .mapping entries => textsOfEntries entries
  | _ => []

/-- The same for the items of a list. -/
def textsOfItems : List Value → List Text
  | [] => []
  | v :: rest => v.texts ++ textsOfItems rest

/-- The same for the entries of a mapping. -/
def textsOfEntries : List (Value × Value) → List Text
  | [] => []
  | (_, v) :: rest => v.texts ++ textsOfEntries rest

end

theorem texts_list (items : List Value) : (list items).texts = items.flatMap texts := by
  rw [texts]
  induction items with
  | nil => rfl
  | cons v rest ih => rw [textsOfItems, ih, List.flatMap_cons]

theorem texts_object (fields : List (Text × Value)) :
    (object fields).texts = fields.flatMap fun f => f.2.texts := by
  rw [object, texts]
  induction fields with
  | nil => rfl
  | cons f rest ih => rw [entriesOfFields_cons, textsOfEntries, ih, List.flatMap_cons]

end Value

namespace Expansion

variable {env : Environment}

/-- **The bodies of the references in a document**, in the order in which they stand there. -/
def references (v : Value) : List Text :=
  v.texts.flatMap Segment.bodies

theorem references_list (items : List Value) :
    references (.list items) = items.flatMap references := by
  rw [references, Value.texts_list, List.flatMap_assoc]
  rfl

theorem references_object (fields : List (Text × Value)) :
    references (.object fields) = fields.flatMap fun f => references f.2 := by
  rw [references, Value.texts_object, List.flatMap_assoc]
  rfl

/-- **What a document becomes**: in place of each of its text values stands what that text
becomes. All else stays as it is. -/
inductive Becomes (env : Environment) : Value → Value → Prop
  | text {t u : Text} (h : TextBecomes env t u) : Becomes env (.text t) (.text u)
  /-- The items of a list stay in their places. -/
  | list {items items' : List Value} (each : List.Forall₂ (Becomes env) items items') :
      Becomes env (.list items) (.list items')
  /-- So do the fields of an object, and they keep their keys. -/
  | object {entries : List (Value × Value)} {fields fields' : List (Text × Value)}
      (split : entries = Value.entriesOfFields fields)
      (keys : fields'.map Prod.fst = fields.map Prod.fst)
      (each : List.Forall₂ (Becomes env) (fields.map Prod.snd) (fields'.map Prod.snd)) :
      Becomes env (.mapping entries) (.object fields')
  | other {v : Value} (htext : ∀ t, v ≠ .text t) (hlist : ∀ items, v ≠ .list items)
      (hmapping : ∀ entries, v ≠ .mapping entries) : Becomes env v v

theorem expandItems_eq_mapM (items : List Value) :
    expandItems env items = items.mapM (expandWhole env) := by
  induction items with
  | nil => rfl
  | cons v rest ih =>
    rw [expandItems, ih, List.mapM_cons]

/-- A field with its value expanded. -/
def expandField (env : Environment) (f : Text × Value) :
    Except ExpansionError (Text × Value) :=
  (expandWhole env f.2).map (Prod.mk f.1)

/-- The fields of an object are set in places of their own, as no key occurs twice. -/
theorem expandEntries_eq_mapM {fields done : List (Text × Value)}
    (hkeys : ((done ++ fields).map Prod.fst).Nodup) :
    expandEntries env (Value.entriesOfFields done) (Value.entriesOfFields fields) =
      (fields.mapM (expandField env)).map fun fields' =>
        Value.entriesOfFields (done ++ fields') := by
  induction fields generalizing done with
  | nil =>
    rw [Value.entriesOfFields_nil, expandEntries, List.mapM_nil]
    simp [pure, Except.pure, Except.map]
  | cons f rest ih =>
    have hnew : f.1 ∉ done.map Prod.fst := by
      rw [List.map_append, List.map_cons, List.nodup_middle, List.nodup_cons] at hkeys
      exact fun hmem => hkeys.1 (List.mem_append_left _ hmem)
    rw [Value.entriesOfFields_cons, expandEntries_cons, List.mapM_cons, expandField]
    rcases expandWhole env f.2 with e | value
    · rfl
    · have hrest := @ih (done ++ [(f.1, value)]) (by simpa using hkeys)
      rw [← Entries.set_eq_concat hnew, ← Value.setKey_entriesOfFields,
        Entries.set_eq_concat hnew] at hrest
      refine hrest.trans ?_
      rcases rest.mapM (expandField env) with e | fields'
      · rfl
      · simp [Except.map, bind, Except.bind, pure, Except.pure]

theorem expandEntries_object {fields : List (Text × Value)}
    (hkeys : (fields.map Prod.fst).Nodup) :
    expandEntries env [] (Value.entriesOfFields fields) =
      (fields.mapM (expandField env)).map Value.entriesOfFields :=
  expandEntries_eq_mapM (List.nil_append fields ▸ hkeys)

theorem becomes_list_iff {items : List Value} {w : Value} :
    Becomes env (.list items) w ↔
      ∃ items', List.Forall₂ (Becomes env) items items' ∧ w = .list items' := by
  constructor
  · intro h
    cases h with
    | list each => exact ⟨_, each, rfl⟩
    | other _ hlist _ => exact absurd rfl (hlist items)
  · rintro ⟨items', each, rfl⟩
    exact .list each

/-- Fields correspond if their keys are the same and their values correspond. -/
theorem forall₂_fields_iff {R : Value → Value → Prop} {fields fields' : List (Text × Value)} :
    List.Forall₂ (fun f g => ∃ value, R f.2 value ∧ g = (f.1, value)) fields fields' ↔
      fields'.map Prod.fst = fields.map Prod.fst ∧
        List.Forall₂ R (fields.map Prod.snd) (fields'.map Prod.snd) := by
  induction fields generalizing fields' with
  | nil => simp
  | cons f rest ih =>
    rcases fields' with _ | ⟨g, rest'⟩
    · simp
    · have hfield : (∃ value, R f.2 value ∧ g = (f.1, value)) ↔ g.1 = f.1 ∧ R f.2 g.2 := by
        obtain ⟨k, value⟩ := g
        simp [and_comm]
      simp only [List.forall₂_cons, List.map_cons, List.cons.injEq, ih, hfield]
      tauto

theorem becomes_object_iff {fields : List (Text × Value)} {w : Value} :
    Becomes env (.object fields) w ↔ ∃ fields', List.Forall₂ (fun f g =>
      ∃ value, Becomes env f.2 value ∧ g = (f.1, value)) fields fields' ∧ w = .object fields' := by
  simp only [forall₂_fields_iff]
  constructor
  · intro h
    cases h with
    | object split keys each =>
      rw [← Value.entriesOfFields_injective split] at keys each
      exact ⟨_, ⟨keys, each⟩, rfl⟩
    | other _ _ hmapping => exact absurd rfl (hmapping _)
  · rintro ⟨fields', ⟨keys, each⟩, rfl⟩
    exact .object rfl keys each

theorem becomes_text_iff {t : Text} {w : Value} :
    Becomes env (.text t) w ↔ ∃ u, TextBecomes env t u ∧ w = .text u := by
  constructor
  · intro h
    cases h with
    | text h => exact ⟨_, h, rfl⟩
    | other htext _ _ => exact absurd rfl (htext t)
  · rintro ⟨u, h, rfl⟩
    exact .text h

/-- Other values stay. -/
theorem exact_other {v : Value} (htext : ∀ t, v ≠ .text t) (hlist : ∀ items, v ≠ .list items)
    (hmapping : ∀ entries, v ≠ .mapping entries) :
    Exact env (references v) (Becomes env v) (expandWhole env v) := by
  have hreferences : references v = [] := by
    cases v <;> first | rfl | grind
  have hexpand : expandWhole env v = .ok v := by
    rw [expandWhole]
    · exact htext
    · exact hlist
    · exact hmapping
  rw [hreferences, hexpand]
  refine (exact_ok env v).congr fun w => ?_
  constructor
  · rintro rfl
    exact .other htext hlist hmapping
  · intro h
    cases h with
    | text h => exact absurd rfl (htext _)
    | list each => exact absurd rfl (hlist _)
    | object split keys each => exact absurd rfl (hmapping _)
    | other _ _ _ => rfl

/-- **What a JSON document is expanded to**, and when it is not. -/
theorem exact_expandWhole {v : Value} (hjson : v.IsJson)
    (hscalar : ∀ t ∈ v.texts, t.Scalar) :
    Exact env (references v) (Becomes env v) (expandWhole env v) := by
  induction hjson with
  | null | bool | int | float => exact exact_other (by simp) (by simp) (by simp)
  | text t =>
    have ht := exact_expandText env (hscalar t (by simp [Value.texts]))
    rw [expandWhole, references, Value.texts, List.flatMap_singleton]
    exact (ht.map Value.text).congr fun w => becomes_text_iff.symm
  | @list items each ih =>
    rw [Value.texts_list] at hscalar
    have hitem : ∀ v ∈ items, Exact env (references v) (Becomes env v) (expandWhole env v) :=
      fun v hv => ih v hv fun t ht => hscalar t (List.mem_flatMap.mpr ⟨v, hv, ht⟩)
    rw [expandWhole, expandItems_eq_mapM, references_list]
    exact ((Exact.mapM hitem).map Value.list).congr fun w => becomes_list_iff.symm
  | @object entries fields split distinct each ih =>
    subst split
    change ∀ t ∈ (Value.object fields).texts, t.Scalar at hscalar
    rw [Value.texts_object] at hscalar
    have hfield : ∀ f ∈ fields, Exact env (references f.2)
        (fun g => ∃ value, Becomes env f.2 value ∧ g = (f.1, value))
        (expandField env f) := fun f hf =>
      (ih f hf fun t ht => hscalar t (List.mem_flatMap.mpr ⟨f, hf, ht⟩)).map (Prod.mk f.1)
    rw [expandWhole, expandEntries_object distinct]
    change Exact env (references (.object fields)) (Becomes env (.object fields)) _
    rw [references_object]
    refine (((Exact.mapM hfield).map Value.entriesOfFields).map Value.mapping).congr fun w => ?_
    rw [becomes_object_iff]
    constructor
    · rintro ⟨_, ⟨fields', each, rfl⟩, rfl⟩
      exact ⟨fields', each, rfl⟩
    · rintro ⟨fields', each, rfl⟩
      exact ⟨_, ⟨fields', each, rfl⟩, rfl⟩

/-! ### What the environment has to do with it -/

/-- **A document refers to a variable** if one of its references names it. -/
def RefersTo (v : Value) (name : Text) : Prop :=
  ∃ body ∈ references v, ∃ default?, Names body name default?

theorem refersTo_iff {v : Value} {name : Text} :
    RefersTo v name ↔ ∃ body ∈ references v, name = nameIn body := by
  simp only [RefersTo, exists_names_iff]

theorem mapM_congr {α β : Type} {f g : α → Except ExpansionError β} {l : List α}
    (h : ∀ a ∈ l, f a = g a) : l.mapM f = l.mapM g := by
  induction l with
  | nil => rw [List.mapM_nil, List.mapM_nil]
  | cons a l ih =>
    rw [List.forall_mem_cons] at h
    rw [List.mapM_cons, List.mapM_cons, h.1, ih h.2]

/-- A reference knows of the environment what it names. -/
theorem resolve_congr {env' : Environment} {body : Text} (hs : body.Scalar)
    (h : ∀ name default?, Names body name default? → env'.filled? name = env.filled? name) :
    resolve env' body = resolve env body := by
  rw [resolve_eq env' hs, resolve_eq env hs]
  rcases hcut : Text.cutAt defaultMark body with _ | ⟨name, default⟩
  · simp only [h body none (names_none_iff.mpr ⟨rfl, hcut⟩)]
  · simp only [h name default (names_some_iff.mpr hcut)]

theorem expandText_congr {env' : Environment} {t : Text}
    (h : ∀ body ∈ Segment.bodies t, resolve env' body = resolve env body) :
    expandText env' t = expandText env t := by
  have heach : ∀ segment ∈ Segment.split t, resolveSegment env' segment =
      resolveSegment env segment := by
    intro segment hmem
    cases segment with
    | plain c => rfl
    | reference body => exact h body (List.mem_filterMap.mpr ⟨_, hmem, rfl⟩)
  rw [expandText, expandText, mapM_congr heach]

/-- **A document knows of the environment what its references come to.** -/
theorem expandWhole_congr {env' : Environment} {v : Value} (hjson : v.IsJson)
    (h : ∀ body ∈ references v, resolve env' body = resolve env body) :
    expandWhole env' v = expandWhole env v := by
  induction hjson with
  | null | bool | int | float => rfl
  | text t =>
    rw [references, Value.texts, List.flatMap_singleton] at h
    rw [expandWhole, expandWhole, expandText_congr h]
  | @list items each ih =>
    rw [references_list] at h
    rw [expandWhole, expandWhole, expandItems_eq_mapM, expandItems_eq_mapM,
      mapM_congr fun v hv => ih v hv fun body hb => h body (List.mem_flatMap.mpr ⟨v, hv, hb⟩)]
  | @object entries fields split distinct each ih =>
    subst split
    change ∀ body ∈ references (.object fields), _ at h
    rw [references_object] at h
    have hfield : ∀ f ∈ fields, expandField env' f = expandField env f :=
      fun f hf => congrArg (Except.map (Prod.mk f.1))
        (ih f hf fun body hb => h body (List.mem_flatMap.mpr ⟨f, hf, hb⟩))
    rw [expandWhole, expandWhole, expandEntries_object distinct, expandEntries_object distinct,
      mapM_congr hfield]

/-- A safe depth is never too much for the stack. -/
theorem fits_of_nestedWithin [Platform] {v : Value} (h : v.NestedWithin Platform.depth)
    (env : Environment) : fits env v := by
  rw [fits, Value.isWithin_iff.mpr h]
  rfl

/-- **The reference semantics of expansion**, on every platform.

* Every text is read as segments in one way, and this is how it is split.
* A text without surrogates becomes what its segments stand for, or the first of its references
  that is unresolved is missing.
* A JSON document of such texts for which the stack suffices becomes the same document with each
  text value replaced by what it becomes, or the first reference that is unresolved is missing. The
  stack suffices for every document that is nested no deeper than is safe.
* Of the environment only the variables matter that the document refers to, and of these whether
  they are set and not blank, and to what. -/
theorem expand_exact [Platform] (env : Environment) :
    (∀ t segments, Segment.Reading t segments ↔ segments = Segment.split t) ∧
    (∀ t : Text, t.Scalar → Exact env (Segment.bodies t) (TextBecomes env t) (expandText env t)) ∧
    (∀ v : Value, v.NestedWithin Platform.depth → fits env v) ∧
    ∀ v : Value, v.IsJson → (∀ t ∈ v.texts, t.Scalar) → fits env v →
      Exact env (references v) (Becomes env v) (expand env v) ∧
      ∀ env', fits env' v → (∀ name, RefersTo v name → env'.filled? name = env.filled? name) →
        expand env' v = expand env v := by
  refine ⟨fun t segments => Segment.reading_iff, fun t ht => exact_expandText env ht,
    fun v hdepth => fits_of_nestedWithin hdepth env, fun v hjson hscalar hfits => ?_⟩
  have hwhole : expand env v = expandWhole env v := if_pos hfits
  refine ⟨hwhole ▸ exact_expandWhole hjson hscalar, fun env' hfits' h => ?_⟩
  have hwhole' : expand env' v = expandWhole env' v := if_pos hfits'
  rw [hwhole, hwhole']
  refine expandWhole_congr hjson fun body hbody => ?_
  obtain ⟨t, ht, hb⟩ := List.mem_flatMap.mp hbody
  have hs : body.Scalar := fun c hc => hscalar t ht c (Segment.mem_of_mem_bodies hb hc)
  exact resolve_congr hs fun name default? hname => h name ⟨body, hbody, default?, hname⟩

/-- An environment in which the value of one variable spells a reference, and one is blank. -/
def trapEnvironment : Environment :=
  ⟨[("A", "x"), ("B", "${A}"), ("C", " ")]⟩

/-- A document with references in a key, in texts, and with what looks like one but is none. -/
def trapDocument : Value :=
  .object [("${A}", .list [.text "$${A}", .text "$\x7b\x7d${A}", .int 1]),
    ("b", .text "$\x7bA:-${B}\x7d${B}${C:-d}")]

/-- What it becomes. -/
def trapExpanded : Value :=
  .object [("${A}", .list [.text "$x", .text "$\x7b\x7dx", .int 1]), ("b", .text "x\x7d${A}d")]

theorem isJson_trapDocument : trapDocument.IsJson := by
  have htext : ∀ t, (Value.text t).IsJson := .text
  have hlist : (Value.list [.text "$${A}", .text "$\x7b\x7d${A}", .int 1]).IsJson :=
    .list (by simp [htext, Value.IsJson.int])
  exact Value.isJson_object_iff.mpr ⟨by decide, by simp [hlist, htext]⟩

theorem scalar_trapDocument : ∀ t ∈ trapDocument.texts, t.Scalar := by
  have htexts : trapDocument.texts =
      (["$${A}", "$\x7b\x7d${A}", "$\x7bA:-${B}\x7d${B}${C:-d}"] : List Text) := rfl
  rw [htexts]
  decide

theorem nestedWithin_trapDocument : trapDocument.NestedWithin Platform.depth := by
  have htext : ∀ n t, (Value.text t).NestedWithin n := fun n t => .leaf (by simp) (by simp)
  have hint : (Value.int 1).NestedWithin 0 := .leaf (by simp) (by simp)
  have hlist : (Value.list [.text "$${A}", .text "$\x7b\x7d${A}", .int 1]).NestedWithin 1 :=
    .list (by simp [htext, hint])
  have htwo : trapDocument.NestedWithin 2 :=
    .mapping (by simp [Value.entriesOfFields, htext, hlist])
  exact htwo.mono (by decide)

/-- The environment with one more variable. -/
def widerEnvironment : Environment :=
  ⟨("D", "y") :: trapEnvironment.bindings⟩

theorem filled?_widerEnvironment {name : Text} (h : RefersTo trapDocument name) :
    widerEnvironment.filled? name = trapEnvironment.filled? name := by
  have hreferences : references trapDocument =
      (["A", "A", "A:-$\x7bB", "B", "C:-d"] : List Text) := by decide +kernel
  obtain ⟨body, hbody, rfl⟩ := refersTo_iff.mp h
  have hsame : ∀ body ∈ (["A", "A", "A:-$\x7bB", "B", "C:-d"] : List Text),
      widerEnvironment.filled? (nameIn body) = trapEnvironment.filled? (nameIn body) := by decide
  exact hsame body (hreferences ▸ hbody)

/-- The document becomes what is said, and a variable that it does not refer to changes nothing.
Of two references, one inside the other, the first closing brace ends the outer one, and its
variable is missing. -/
theorem expand_trapDocument :
    trapDocument.IsJson ∧ (∀ t ∈ trapDocument.texts, t.Scalar) ∧
    trapDocument.NestedWithin Platform.depth ∧ Becomes trapEnvironment trapDocument trapExpanded ∧
    (∀ name, RefersTo trapDocument name →
      widerEnvironment.filled? name = trapEnvironment.filled? name) ∧
    expand widerEnvironment trapDocument = .ok trapExpanded ∧ Text.Scalar "$\x7b${A}\x7d" ∧
    expandText trapEnvironment "$\x7b${A}\x7d" = .error (.missing "$\x7bA") := by
  obtain ⟨-, htexts, hdeep, hdocuments⟩ := expand_exact trapEnvironment
  obtain ⟨hexact, hsame⟩ := hdocuments trapDocument isJson_trapDocument scalar_trapDocument
    (hdeep _ nestedWithin_trapDocument)
  have hsame := hsame widerEnvironment (fits_of_nestedWithin nestedWithin_trapDocument _)
  have hexpand : expand trapEnvironment trapDocument = .ok trapExpanded := by
    with_unfolding_all rfl
  have hscalar : Text.Scalar "$\x7b${A}\x7d" := by decide
  have hfirst : (Segment.bodies "$\x7b${A}\x7d").find? (Unresolved trapEnvironment ·) =
      some "$\x7bA" := by decide +kernel
  have hfilled := fun name => @filled?_widerEnvironment name
  exact ⟨isJson_trapDocument, scalar_trapDocument, nestedWithin_trapDocument,
    (hexact.ok _).mp hexpand, hfilled, (hsame hfilled).trans hexpand, hscalar,
    ((htexts _ hscalar).error _).mpr ⟨_, rfl, hfirst⟩⟩

end Expansion

end RainMeta
