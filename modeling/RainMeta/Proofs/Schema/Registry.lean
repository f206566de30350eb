import RainMeta.Schema.Registry

/-!
# Registries that have been asked before

A registry keeps the schemas that it has read, and its answers do not show it: along any run of
checks, each of them is answered as by a registry of the same source that has read nothing
(`RainMeta.Registry.validateAll_transparent`).

What carries this along a run is that everything kept is what would be read
(`RainMeta.Registry.Faithful`). Schemas are kept under names without blanks around them, and
refusals show names as they were given; so a name with blanks finds what the bare name has left
behind, and is still answered in its own words. Which documents are checked, and with what result,
has no part in what is kept: these are the schemas that were asked for and can be read, and no
others (`RainMeta.Registry.Faithful.find?_known_validateAll`).
-/

namespace RainMeta

/-- **The schema that a name stands for**, read anew: nothing that is known is looked at. -/
def SchemaSource.named [Platform] (tree : FileTree) (source : SchemaSource) (name : Text) :
    Except SchemaFault Schema :=
  if name.strip = [] then .error (.refusal .nameMissing) else source.schema tree name.strip

namespace Registry

/-- The registry of a source that has read nothing. -/
def fresh (source : SchemaSource) : Registry :=
  { source }

variable [Platform]

/-- **A run of checks**: documents with the names of their schemas, one after another, and what each
of them comes to. -/
def validateAll (tree : FileTree) :
    Registry → List (Text × Value) → List (Except SchemaFault Unit) × Registry
  | r, [] => ([], r)
  | r, (name, v) :: calls =>
    let (outcome, r) := r.validate tree name v
    let (outcomes, r) := validateAll tree r calls
    (outcome :: outcomes, r)

variable {tree : FileTree} {r : Registry} {name : Text}
  {found : Except SchemaFault Schema × Registry}

/-! ### Looking a schema up -/

/-- **What looking a schema up comes to**: what is found, and the registry after it. -/
inductive LooksUp (tree : FileTree) (r : Registry) (name : Text) :
    Except SchemaFault Schema × Registry → Prop
  /-- There is no name. -/
  | blank (h : name.strip = []) : LooksUp tree r name (.error (.refusal .nameMissing), r)
  /-- The schema has been read before. -/
  | known {s : Schema} (h : name.strip ≠ []) (hs : r.known.find? name.strip = some s) :
      LooksUp tree r name (.ok s, r)
  /-- The schema is read, and kept. -/
  | learnt {s : Schema} (h : name.strip ≠ []) (hs : r.source.schema tree name.strip = .ok s) :
      LooksUp tree r name (.ok s, { r with known := r.known.set name.strip s })
  /-- The schema cannot be read. -/
  | unread {fault : SchemaFault} (h : name.strip ≠ [])
      (hs : r.source.schema tree name.strip = .error fault) :
      LooksUp tree r name (.error fault, r)

theorem looksUp_schema (tree : FileTree) (r : Registry) (name : Text) :
    LooksUp tree r name (r.schema tree name) := by
  rw [schema]
  split
  · next hblank => exact .blank (List.isEmpty_iff.mp hblank)
  · next hname =>
    rw [List.isEmpty_iff] at hname
    rcases hknown : r.known.find? name.strip with _ | s
    · rcases hs : r.source.schema tree name.strip with fault | s
      · exact .unread hname hs
      · exact .learnt hname hs
    · exact .known hname hknown

theorem LooksUp.source_eq (h : LooksUp tree r name found) : found.2.source = r.source := by
  cases h <;> rfl

/-! ### What is kept is what would be read -/

/-- **A registry is faithful to a tree** if the schemas that it knows are those that it would read
there. -/
def Faithful (tree : FileTree) (r : Registry) : Prop :=
  ∀ name s, r.known.find? name = some s → r.source.schema tree name = .ok s

theorem faithful_fresh (tree : FileTree) (source : SchemaSource) :
    (fresh source).Faithful tree := by
  rintro name s ⟨⟩

/-- A faithful registry finds what its source has, whether it has been read before or not. -/
theorem Faithful.found_eq (hr : r.Faithful tree) (h : LooksUp tree r name found) :
    found.1 = r.source.named tree name := by
  rw [SchemaSource.named]
  cases h with
  | blank hblank => rw [if_pos hblank]
  | known hname hs => rw [if_neg hname, hr _ _ hs]
  | learnt hname hs => rw [if_neg hname, hs]
  | unread hname hs => rw [if_neg hname, hs]

/-- What is known after a look-up is what was known before it, and the schema of the name if that
can be read. -/
theorem Faithful.find?_known_after (hr : r.Faithful tree) (h : LooksUp tree r name found)
    (key : Text) (s : Schema) : found.2.known.find? key = some s ↔
      r.known.find? key = some s ∨
        key = name.strip ∧ key ≠ [] ∧ r.source.schema tree key = .ok s := by
  cases h with
  | blank hblank => simp +contextual [hblank]
  | known hname hs =>
    refine ⟨.inl, fun h => h.elim id ?_⟩
    rintro ⟨rfl, -, hread⟩
    rw [hs, ← Except.ok.inj ((hr _ _ hs).symm.trans hread)]
  | learnt hname hs =>
    rw [Table.find?_set]
    split
    · next hkey =>
      -- the name may have been known already: then this is the schema that it is known for
      subst hkey
      have hknown := hr name.strip s
      rw [hs] at hknown ⊢
      simpa [hname] using hknown
    · next hkey => simp [hkey]
  | unread hname hs => simp +contextual [hs]

theorem Faithful.after (hr : r.Faithful tree) (h : LooksUp tree r name found) :
    found.2.Faithful tree := by
  intro key s hkey
  rw [h.source_eq]
  rcases (hr.find?_known_after h key s).mp hkey with hknown | ⟨-, -, hread⟩
  · exact hr key s hknown
  · exact hread

/-! ### Runs of checks -/

theorem validateAll_cons (tree : FileTree) (r : Registry) (name : Text) (v : Value)
    (calls : List (Text × Value)) :
    validateAll tree r ((name, v) :: calls) =
      ((r.validate tree name v).1 :: (validateAll tree (r.validate tree name v).2 calls).1,
        (validateAll tree (r.validate tree name v).2 calls).2) := rfl

/-- **A faithful registry answers as its source would**: it checks against the schema of the name,
read anew. -/
theorem Faithful.fst_validate (hr : r.Faithful tree) (name : Text) (v : Value) :
    (r.validate tree name v).1 = (r.source.named tree name).bind fun s => check name s v := by
  rw [← hr.found_eq (looksUp_schema tree r name)]
  rfl

/-- **A check keeps a registry faithful**, whatever it comes to. -/
theorem Faithful.snd_validate (hr : r.Faithful tree) (name : Text) (v : Value) :
    (r.validate tree name v).2.Faithful tree :=
  hr.after (looksUp_schema tree r name)

/-- **What is known after a check** is what was known before it, and the schema that it asked for if
that can be read. -/
theorem Faithful.find?_known_validate (hr : r.Faithful tree) (name : Text) (v : Value) (key : Text)
    (s : Schema) : (r.validate tree name v).2.known.find? key = some s ↔
      r.known.find? key = some s ∨
        key = name.strip ∧ key ≠ [] ∧ r.source.schema tree key = .ok s :=
  hr.find?_known_after (looksUp_schema tree r name) key s

theorem source_validate (tree : FileTree) (r : Registry) (name : Text) (v : Value) :
    (r.validate tree name v).2.source = r.source :=
  (looksUp_schema tree r name).source_eq

/-- **Along a run** all checks are made against schemas read anew. -/
theorem Faithful.fst_validateAll (hr : r.Faithful tree) (calls : List (Text × Value)) :
    (validateAll tree r calls).1 =
      calls.map fun call => (r.source.named tree call.1).bind fun s => check call.1 s call.2 := by
  -- the registry is another one after each check, but a faithful one of the same source
  induction calls generalizing r with
  | nil => rfl
  | cons call calls ih =>
    obtain ⟨name, v⟩ := call
    rw [validateAll_cons, List.map_cons, hr.fst_validate, ih (hr.snd_validate name v),
      source_validate]

/-- **What is known after a run** is what was known before it, and all schemas that were asked for
and can be read. -/
theorem Faithful.find?_known_validateAll (hr : r.Faithful tree) (calls : List (Text × Value))
    (key : Text) (s : Schema) : (validateAll tree r calls).2.known.find? key = some s ↔
      r.known.find? key = some s ∨
        (∃ call ∈ calls, key = call.1.strip) ∧ key ≠ [] ∧ r.source.schema tree key = .ok s := by
  induction calls generalizing r with
  | nil => simp [validateAll]
  | cons call calls ih =>
    obtain ⟨name, v⟩ := call
    rw [validateAll_cons, ih (hr.snd_validate name v), source_validate,
      hr.find?_known_validate name v]
    simp only [List.mem_cons, exists_eq_or_imp]
    rw [or_assoc, ← or_and_right]

/-- **What has been asked before does not show.** Each check of a run is answered as by a registry
that has read nothing: the document passes, or it is refused with the same cause. After the run the
registry knows the schemas that can be read under the names that it was asked for, and nothing
else, whatever documents it was shown. -/
theorem validateAll_transparent (tree : FileTree) (source : SchemaSource)
    (calls : List (Text × Value)) :
    (validateAll tree (fresh source) calls).1 =
        calls.map (fun call => ((fresh source).validate tree call.1 call.2).1) ∧
      ∀ key s, (validateAll tree (fresh source) calls).2.known.find? key = some s ↔
        (∃ call ∈ calls, key = call.1.strip) ∧ key ≠ [] ∧ source.schema tree key = .ok s := by
  have hfresh := faithful_fresh tree source
  constructor
  · rw [hfresh.fst_validateAll]
    exact List.map_congr_left fun call _ => (hfresh.fst_validate call.1 call.2).symm
  · intro key s
    rw [hfresh.find?_known_validateAll]
    exact or_iff_right nofun

end Registry

end RainMeta
