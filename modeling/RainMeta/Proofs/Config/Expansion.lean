import RainMeta.Config.Expansion
import RainMeta.Proofs.Document.Objects

/-!
# Documents with their variables expanded

Expansion replaces texts by texts and leaves everything else as it is, so a JSON value stays a
JSON value (`RainMeta.Expansion.isJson_of_expandWhole`), and an object stays an object. Keys are
not expanded. They are set one after another, and as they are texts already, each of them is set
as it is.
-/

namespace RainMeta

namespace Expansion

variable {env : Environment}

/-- The fields of a JSON object are set one after another. -/
theorem expandEntries_cons {done rest : List (Value × Value)} (k : Text) (v : Value) :
    expandEntries env done ((.text k, v) :: rest) = expandWhole env v >>= fun value =>
      expandEntries env (Value.setKey (.text k) value done) rest := by
  rw [expandEntries]
  rfl

/-- Items that become JSON values. -/
theorem isJson_of_expandItems {items expanded : List Value}
    (heach : ∀ v ∈ items, ∀ w, expandWhole env v = .ok w → w.IsJson)
    (h : expandItems env items = .ok expanded) : ∀ w ∈ expanded, w.IsJson := by
  induction items generalizing expanded with
  | nil =>
    rw [expandItems] at h
    cases h
    simp
  | cons v rest ih =>
    rw [expandItems] at h
    rcases hv : expandWhole env v with e | first
    · rw [hv] at h
      cases h
    rcases hr : expandItems env rest with e | more
    · rw [hv, hr] at h
      cases h
    · rw [hv, hr] at h
      cases h
      rw [List.forall_mem_cons] at heach ⊢
      exact ⟨heach.1 first hv, ih heach.2 hr⟩

/-- **Fields that become JSON values**, set one after another after those that are set already. -/
theorem isJson_of_expandEntries {fields done : List (Text × Value)}
    {expanded : List (Value × Value)}
    (heach : ∀ f ∈ fields, ∀ w, expandWhole env f.2 = .ok w → w.IsJson)
    (hdone : (Value.object done).IsJson)
    (h : expandEntries env (Value.entriesOfFields done) (Value.entriesOfFields fields) =
      .ok expanded) : (Value.mapping expanded).IsJson := by
  induction fields generalizing done with
  | nil =>
    rw [Value.entriesOfFields_nil, expandEntries] at h
    cases h
    exact hdone
  | cons f rest ih =>
    rw [List.forall_mem_cons] at heach
    rw [Value.entriesOfFields_cons, expandEntries_cons] at h
    rcases hv : expandWhole env f.2 with e | value
    · rw [hv] at h
      cases h
    · rw [hv] at h
      change expandEntries env (Value.setKey _ _ _) _ = _ at h
      rw [Value.setKey_entriesOfFields] at h
      exact ih heach.2 (Value.isJson_object_set hdone (heach.1 value hv) f.1) h

/-- **A JSON value stays one** when its variables are expanded. -/
theorem isJson_of_expandWhole {v w : Value} (hv : v.IsJson)
    (h : expandWhole env v = .ok w) : w.IsJson := by
  induction hv generalizing w with
  | null | bool | int | float =>
    rw [expandWhole] at h
    · cases h
      constructor
    all_goals simp
  | text t =>
    rw [expandWhole] at h
    rcases he : expandText env t with e | t'
    · rw [he] at h
      cases h
    · rw [he] at h
      cases h
      exact .text t'
  | @list items each ih =>
    rw [expandWhole] at h
    rcases he : expandItems env items with e | expanded
    · rw [he] at h
      cases h
    · rw [he] at h
      cases h
      exact .list (isJson_of_expandItems (fun v hv w => ih v hv) he)
  | @object entries fields split distinct each ih =>
    subst split
    rw [expandWhole] at h
    rcases he : expandEntries env [] (Value.entriesOfFields fields) with e | expanded
    · rw [he] at h
      cases h
    · rw [he] at h
      cases h
      have hnone : (Value.object []).IsJson :=
        Value.isJson_object_iff.mpr ⟨List.nodup_nil, fun f hf => absurd hf List.not_mem_nil⟩
      exact isJson_of_expandEntries (fun f hf w => ih f hf) hnone he

/-- An object stays an object. -/
theorem isJsonObject_of_expandWhole {v w : Value} (hv : v.IsJsonObject)
    (h : expandWhole env v = .ok w) : w.IsJsonObject := by
  obtain ⟨hjson, entries, rfl⟩ := hv
  refine ⟨isJson_of_expandWhole hjson h, ?_⟩
  rw [expandWhole] at h
  rcases he : expandEntries env [] entries with e | expanded
  · rw [he] at h
    cases h
  · rw [he] at h
    cases h
    exact ⟨expanded, rfl⟩

theorem isJsonObject_of_expand [Platform] {v w : Value} (hv : v.IsJsonObject)
    (h : expand env v = .ok w) : w.IsJsonObject := by
  rw [expand] at h
  split at h
  · exact isJsonObject_of_expandWhole hv h
  · cases h

end Expansion

end RainMeta
