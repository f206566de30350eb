import Mathlib.Data.List.Permutation
import RainMeta.Config.Model
import RainMeta.Proofs.Document.Objects
import RainMeta.Proofs.Schema
import RainMeta.Schema.Packaged

/-!
# The grammar of configurations

How a configuration is written as a JSON value (`RainMeta.Grammar.IsConfig`), said once and
without any checks. Two other parts of a program know this grammar: the schema, which says whether
a value is a configuration, and the models, which say which one. They agree with it, and so with
each other.

* The schema allows a JSON value exactly if it is some configuration
  (`RainMeta.Grammar.describes_configuration`).
* The models read a value that is a configuration as this very configuration
  (`RainMeta.Grammar.ofDocument_of_isConfig`).

So the models never have anything to complain about in what the schema has let through. Neither
direction is a matter of course. The schema counts the keys of a meta and the models look whether
one of two paths is missing; the schema lists the keys of a deployer and the models accept a second
spelling of some, which the schema does not.
-/

namespace RainMeta

/-! ### How things are written -/

namespace Grammar

/-- Something is written as the text that it is read from, which is not empty. -/
inductive IsSpelled {α : Type} (read : Text → α) : α → Value → Prop
  | of {t : Text} (nonempty : t ≠ []) : IsSpelled read (read t) (.text t)

/-- How a path is written. -/
def IsPath : Path → Value → Prop :=
  IsSpelled Path.ofText

/-- How a subgraph is written. -/
def IsSubgraph : Text → Value → Prop :=
  IsSpelled id

/-- Several things are written as a list. -/
inductive IsList {α : Type} (IsItem : α → Value → Prop) : List α → Value → Prop
  | of {as : List α} {items : List Value} (each : List.Forall₂ IsItem as items) :
      IsList IsItem as (.list items)

/-- Something with parts is written as an object with fields for them. -/
inductive IsObject {α : Type} (HasFields : α → List (Text × Value) → Prop) : α → Value → Prop
  | of {a : α} {fields : List (Text × Value)} (has : HasFields a fields) :
      IsObject HasFields a (.object fields)

theorem isObject_iff {α : Type} {HasFields : α → List (Text × Value) → Prop} {a : α} {v : Value} :
    IsObject HasFields a v ↔ ∃ fields, v = .object fields ∧ HasFields a fields := by
  constructor
  · rintro ⟨has⟩
    exact ⟨_, rfl, has⟩
  · rintro ⟨fields, rfl, has⟩
    exact .of has

/-- **The fields of a meta file**: one, under the key for its kind, with its path. -/
inductive MetaFields : MetaEntry → List (Text × Value) → Prop
  | binary {p : Path} {v : Value} (path : IsPath p v) : MetaFields (.binary p) [("binary", v)]
  | hex {p : Path} {v : Value} (path : IsPath p v) : MetaFields (.hex p) [("hex", v)]

/-- How a meta file is written. -/
def IsMeta : MetaEntry → Value → Prop :=
  IsObject MetaFields

/-- A field that has to be there. -/
def HasField {α : Type} (key : Text) (IsValue : α → Value → Prop) (a : α)
    (fields : List (Text × Value)) : Prop :=
  ∃ v, (key, v) ∈ fields ∧ IsValue a v

/-- A field that may be left out; nothing is written that way. -/
def MayHaveField {α : Type} (key : Text) (IsValue : List α → Value → Prop) (as : List α)
    (fields : List (Text × Value)) : Prop :=
  HasField key IsValue as fields ∨ as = [] ∧ ∀ f ∈ fields, f.1 ≠ key

/-- The keys of a deployer. -/
def deployerKeys : List Text :=
  ["constructionMeta", "expressionDeployer", "parser", "store", "interpreter"]

/-- **The fields of a deployer**: five, in any order. -/
structure DeployerFields (d : DeployerConfig) (fields : List (Text × Value)) : Prop where
  keys : (fields.map Prod.fst).Perm deployerKeys
  constructionMeta : HasField "constructionMeta" IsMeta d.constructionMeta fields
  expressionDeployer : HasField "expressionDeployer" IsPath d.expressionDeployer fields
  parser : HasField "parser" IsPath d.parser fields
  store : HasField "store" IsPath d.store fields
  interpreter : HasField "interpreter" IsPath d.interpreter fields

/-- How a deployer is written. -/
def IsDeployer : DeployerConfig → Value → Prop :=
  IsObject DeployerFields

/-- Several deployers are written as an object with their keys, which may be any texts. -/
def IsDeployers : List (Text × DeployerConfig) → Value → Prop :=
  IsObject (List.Forall₂ fun d f => d.1 = f.1 ∧ IsDeployer d.2 f.2)

/-- The keys of a configuration. -/
def configKeys : List Text := ["include", "subgraphs", "meta", "deployers"]

/-- **The fields of a configuration**: up to four, in any order. -/
structure ConfigFields (c : Config) (fields : List (Text × Value)) : Prop where
  known : ∀ f ∈ fields, f.1 ∈ configKeys
  roots : MayHaveField "include" (IsList IsPath) c.roots fields
  subgraphs : MayHaveField "subgraphs" (IsList IsSubgraph) c.subgraphs fields
  metas : MayHaveField "meta" (IsList IsMeta) c.metas fields
  deployers : MayHaveField "deployers" IsDeployers c.deployers fields

/-- **How a configuration is written.** -/
def IsConfig : Config → Value → Prop :=
  IsObject ConfigFields

/-! ### What the schema allows -/

theorem allows_nonEmptyText_iff {v : Value} :
    Schema.nonEmptyText.Allows v ↔ ∃ t, t ≠ [] ∧ v = .text t := by
  simp only [Schema.nonEmptyText, Schema.Allows, Keyword.AllAllow, Keyword.Allows]
  constructor
  · rintro ⟨⟨name, hname, hholds⟩, hlength, -⟩
    obtain rfl := List.mem_singleton.mp hname
    cases v with
    | text t => exact ⟨t, List.length_pos_iff.mp (hlength t rfl), rfl⟩
    | _ => cases hholds
  · rintro ⟨t, ht, rfl⟩
    refine ⟨⟨_, List.mem_singleton.mpr rfl, rfl⟩, fun t' ht' => ?_, trivial⟩
    cases ht'
    exact List.length_pos_iff.mpr ht

/-- **A schema describes how things are written**, among the values that JSON can spell. -/
def Describes {α : Type} (s : Schema) (IsA : α → Value → Prop) : Prop :=
  ∀ v : Value, v.IsJson → (s.Allows v ↔ ∃ a, IsA a v)

theorem describes_spelled {α : Type} (read : Text → α) :
    Describes Schema.nonEmptyText (IsSpelled read) := fun v _ => by
  rw [allows_nonEmptyText_iff]
  constructor
  · rintro ⟨t, ht, rfl⟩
    exact ⟨_, .of ht⟩
  · rintro ⟨_, ⟨ht⟩⟩
    exact ⟨_, ht, rfl⟩

theorem exists_forall₂_iff {α β : Type} {R : α → β → Prop} {bs : List β} :
    (∃ as, List.Forall₂ R as bs) ↔ ∀ b ∈ bs, ∃ a, R a b := by
  induction bs with
  | nil => exact iff_of_true ⟨[], .nil⟩ (by simp)
  | cons b bs ih =>
    rw [List.forall_mem_cons, ← ih]
    constructor
    · rintro ⟨_, hall⟩
      obtain ⟨a, as, ha, has, -⟩ := List.forall₂_cons_right_iff.mp hall
      exact ⟨⟨a, ha⟩, as, has⟩
    · rintro ⟨⟨a, ha⟩, as, has⟩
      exact ⟨a :: as, .cons ha has⟩

/-- **Lists are described by their items.** -/
theorem Describes.list {α : Type} {item : Schema} {IsItem : α → Value → Prop}
    (h : Describes item IsItem) : Describes (Schema.listOf item) (IsList IsItem) := by
  intro v hv
  simp only [Schema.listOf, Schema.Allows, Keyword.AllAllow, Keyword.Allows]
  constructor
  · rintro ⟨⟨name, hname, hholds⟩, hitems, -⟩
    obtain rfl := List.mem_singleton.mp hname
    cases v with
    | list items =>
      obtain ⟨as, has⟩ := exists_forall₂_iff.mpr fun i hi =>
        (h i (hv.of_mem i hi)).mp (hitems items rfl i hi)
      exact ⟨as, .of has⟩
    | _ => cases hholds
  · rintro ⟨as, has⟩
    obtain ⟨heach⟩ := has
    refine ⟨⟨_, List.mem_singleton.mpr rfl, rfl⟩, fun items he i hi => ?_, trivial⟩
    cases he
    exact (h i (hv.of_mem i hi)).mpr (exists_forall₂_iff.mp ⟨_, heach⟩ i hi)

/-! ### Rules about objects -/

section Objects

variable {fields : List (Text × Value)}

/-- What is said of the entries of an object is said of its fields. -/
theorem forall_entries_iff {P : List (Value × Value) → Prop} :
    (∀ entries, Value.object fields = .mapping entries → P entries) ↔
      P (Value.entriesOfFields fields) :=
  ⟨fun h => h _ rfl, fun h entries he => by cases he; exact h⟩

theorem allows_known_iff (names : List Text) :
    Keyword.Allows (.additionalProperties (names.map .text) (.always false)) (.object fields) ↔
      ∀ f ∈ fields, f.1 ∈ names := by
  rw [Keyword.Allows, forall_entries_iff, Value.textEntries_entriesOfFields]
  refine forall₂_congr fun f _ => ?_
  simp [Schema.Allows, Value.isText]

theorem allows_values_iff (s : Schema) :
    Keyword.Allows (.additionalProperties [] s) (.object fields) ↔
      ∀ f ∈ fields, s.Allows f.2 := by
  rw [Keyword.Allows, forall_entries_iff, Value.textEntries_entriesOfFields]
  simp

theorem allows_minProperties_iff (n : Nat) :
    Keyword.Allows (.minProperties n) (.object fields) ↔ n ≤ fields.length := by
  rw [Keyword.Allows, forall_entries_iff, Value.length_entriesOfFields]

theorem allows_maxProperties_iff (n : Nat) :
    Keyword.Allows (.maxProperties n) (.object fields) ↔ fields.length ≤ n := by
  rw [Keyword.Allows, forall_entries_iff, Value.length_entriesOfFields]

theorem allows_required_iff (hn : (fields.map Prod.fst).Nodup) (names : List Text) :
    Keyword.Allows (.required names) (.object fields) ↔
      ∀ name ∈ names, ∃ v, (name, v) ∈ fields := by
  rw [Keyword.Allows, forall_entries_iff]
  refine forall₂_congr fun name _ => ?_
  rw [Option.isSome_iff_exists]
  exact exists_congr fun v => Value.fieldOf?_eq_some_iff hn

theorem allows_properties_iff (hn : (fields.map Prod.fst).Nodup)
    (schemas : List (Text × Schema)) :
    Keyword.Allows (.properties (schemas.map fun s => (.text s.1, s.2))) (.object fields) ↔
      ∀ s ∈ schemas, ∀ v, (s.1, v) ∈ fields → s.2.Allows v := by
  rw [Keyword.Allows, forall_entries_iff]
  induction schemas with
  | nil => simp [Keyword.PropertiesAllow]
  | cons s rest ih =>
    rw [List.map_cons, Keyword.PropertiesAllow, ih, List.forall_mem_cons]
    refine and_congr_left fun _ => ?_
    simp only [Value.text.injEq, Value.fieldOf?_eq_some_iff hn]
    exact ⟨fun h v hv => h s.1 v rfl hv, fun h k v hk hv => h v (hk ▸ hv)⟩

/-- **Objects are described by their fields.** -/
theorem Describes.object {α : Type} {rules : List Keyword}
    {HasFields : α → List (Text × Value) → Prop}
    (h : ∀ fields, (Value.object fields).IsJson →
      (Keyword.AllAllow rules (.object fields) ↔ ∃ a, HasFields a fields)) :
    Describes (.rules (.types [.object] :: rules)) (IsObject HasFields) := by
  intro v hv
  simp only [Schema.Allows, Keyword.AllAllow]
  constructor
  · rintro ⟨⟨name, hname, hholds⟩, hrules⟩
    obtain rfl := List.mem_singleton.mp hname
    cases v with
    | mapping entries =>
      obtain ⟨fields, rfl, -⟩ := hv.exists_fields
      obtain ⟨a, ha⟩ := (h fields hv).mp hrules
      exact ⟨a, .of ha⟩
    | _ => cases hholds
  · rintro ⟨a, ha⟩
    obtain ⟨ha⟩ := ha
    exact ⟨⟨_, List.mem_singleton.mpr rfl, rfl⟩, (h _ hv).mpr ⟨a, ha⟩⟩

/-- One field follows its schema. -/
theorem allows_hasField_iff {α : Type} {s : Schema} {IsValue : α → Value → Prop} {k : Text}
    (hjson : (Value.object fields).IsJson) (hs : Describes s IsValue)
    (hk : ∃ v, (k, v) ∈ fields) :
    (∀ v, (k, v) ∈ fields → s.Allows v) ↔ ∃ a, HasField k IsValue a fields := by
  obtain ⟨hn, heach⟩ := Value.isJson_object_iff.mp hjson
  constructor
  · intro h
    obtain ⟨v, hv⟩ := hk
    obtain ⟨a, ha⟩ := (hs v (heach _ hv)).mp (h v hv)
    exact ⟨a, v, hv, ha⟩
  · rintro ⟨a, v, hv, ha⟩ w hw
    cases List.inj_on_of_nodup_map hn hw hv rfl
    exact (hs v (heach _ hv)).mpr ⟨a, ha⟩

/-- One field follows its schema, if it is there. -/
theorem allows_mayHaveField_iff {α : Type} {s : Schema} {IsValue : List α → Value → Prop}
    {k : Text} (hjson : (Value.object fields).IsJson) (hs : Describes s IsValue) :
    (∀ v, (k, v) ∈ fields → s.Allows v) ↔ ∃ as, MayHaveField k IsValue as fields := by
  by_cases hk : ∃ v, (k, v) ∈ fields
  · rw [allows_hasField_iff hjson hs hk]
    refine exists_congr fun as => ⟨Or.inl, fun h => h.resolve_right ?_⟩
    obtain ⟨v, hv⟩ := hk
    exact fun h => h.2 _ hv rfl
  · exact iff_of_true (fun v hv => absurd ⟨v, hv⟩ hk)
      ⟨[], Or.inr ⟨rfl, fun f hf hkey => hk ⟨f.2, hkey ▸ hf⟩⟩⟩

/-- An object has exactly some keys. -/
theorem perm_keys_iff (hn : (fields.map Prod.fst).Nodup) (names : List Text)
    (hnames : names.Nodup) : (fields.map Prod.fst).Perm names ↔
      (∀ f ∈ fields, f.1 ∈ names) ∧ ∀ name ∈ names, ∃ v, (name, v) ∈ fields := by
  have hmem (name : Text) : name ∈ fields.map Prod.fst ↔ ∃ v, (name, v) ∈ fields := by simp
  rw [List.perm_ext_iff_of_nodup hn hnames]
  constructor
  · intro h
    exact ⟨fun f hf => (h f.1).mp (List.mem_map_of_mem hf),
      fun name hname => (hmem name).mp ((h name).mpr hname)⟩
  · rintro ⟨hknown, hrequired⟩ name
    refine ⟨fun h => ?_, fun h => (hmem name).mpr (hrequired name h)⟩
    obtain ⟨f, hf, rfl⟩ := List.mem_map.mp h
    exact hknown f hf

end Objects

/-! ### The schema of configurations -/

/-- The keys of a meta. -/
def metaKeys : List Text := ["binary", "hex"]

theorem metaFields_iff {fields : List (Text × Value)} : (∃ m, MetaFields m fields) ↔
    ∃ k v, fields = [(k, v)] ∧ k ∈ metaKeys ∧ ∃ p, IsPath p v := by
  constructor
  · rintro ⟨m, hm⟩
    cases hm with
    | binary hp => exact ⟨_, _, rfl, List.mem_cons_self, _, hp⟩
    | hex hp => exact ⟨_, _, rfl, List.mem_cons_of_mem _ List.mem_cons_self, _, hp⟩
  · rintro ⟨k, v, rfl, hk, p, hp⟩
    rcases List.mem_pair.mp hk with rfl | rfl
    · exact ⟨_, .binary hp⟩
    · exact ⟨_, .hex hp⟩

/-- **Metas are described**: of two keys, an object with one field has exactly one. -/
theorem describes_meta : Describes Schema.metaEntry IsMeta := by
  refine Describes.object fun fields hjson => ?_
  obtain ⟨hn, heach⟩ := Value.isJson_object_iff.mp hjson
  -- both keys have the same schema
  have hproperties := allows_properties_iff hn (metaKeys.map fun k => (k, Schema.nonEmptyText))
  rw [List.forall_mem_map] at hproperties
  have hpath {k : Text} {v : Value} (hv : (k, v) ∈ fields) :=
    describes_spelled Path.ofText v (heach _ hv)
  rw [metaFields_iff]
  simp only [Keyword.AllAllow]
  constructor
  · rintro ⟨hknown, hmin, hmax, hpaths, -⟩
    have hlength : fields.length = 1 :=
      Nat.le_antisymm ((allows_maxProperties_iff 1).mp hmax) ((allows_minProperties_iff 1).mp hmin)
    obtain ⟨⟨k, v⟩, rfl⟩ := List.length_eq_one_iff.mp hlength
    have hk : k ∈ metaKeys := (allows_known_iff metaKeys).mp hknown (k, v) List.mem_cons_self
    exact ⟨k, v, rfl, hk, (hpath List.mem_cons_self).mp
      (hproperties.mp hpaths k hk v List.mem_cons_self)⟩
  · rintro ⟨k, v, rfl, hk, hp⟩
    refine ⟨(allows_known_iff metaKeys).mpr (List.forall_mem_singleton.mpr hk),
      (allows_minProperties_iff 1).mpr Nat.le.refl, (allows_maxProperties_iff 1).mpr Nat.le.refl,
      hproperties.mpr fun k' _ v' hmem => ?_, trivial⟩
    have hv : v' = v := congrArg Prod.snd (List.mem_singleton.mp hmem)
    rw [hv]
    exact (hpath List.mem_cons_self).mpr hp

/-- **Deployers are described**: all five keys occur, and no others do. -/
theorem describes_deployer : Describes Schema.deployer IsDeployer := by
  refine Describes.object fun fields hjson => ?_
  have hn := (Value.isJson_object_iff.mp hjson).1
  have hkeys := perm_keys_iff hn deployerKeys (by decide)
  have hproperties := allows_properties_iff hn [("constructionMeta", Schema.metaEntry),
    ("expressionDeployer", Schema.nonEmptyText), ("parser", Schema.nonEmptyText),
    ("store", Schema.nonEmptyText), ("interpreter", Schema.nonEmptyText)]
  simp only [List.forall_mem_cons] at hproperties
  have hmeta (h : (fields.map Prod.fst).Perm deployerKeys) :=
    allows_hasField_iff hjson describes_meta ((hkeys.mp h).2 "constructionMeta" (by decide))
  have hpath {k : Text} (h : (fields.map Prod.fst).Perm deployerKeys) (hk : k ∈ deployerKeys) :=
    allows_hasField_iff hjson (describes_spelled Path.ofText) ((hkeys.mp h).2 k hk)
  simp only [Keyword.AllAllow]
  constructor
  · rintro ⟨hknown, hrequired, hvalues, -⟩
    have hperm := hkeys.mpr ⟨(allows_known_iff deployerKeys).mp hknown,
      (allows_required_iff hn deployerKeys).mp hrequired⟩
    obtain ⟨hm, he, hp, hs, hi, -⟩ := hproperties.mp hvalues
    obtain ⟨m, hm⟩ := (hmeta hperm).mp hm
    obtain ⟨e, he⟩ := (hpath hperm (by decide)).mp he
    obtain ⟨p, hp⟩ := (hpath hperm (by decide)).mp hp
    obtain ⟨s, hs⟩ := (hpath hperm (by decide)).mp hs
    obtain ⟨i, hi⟩ := (hpath hperm (by decide)).mp hi
    exact ⟨⟨m, e, p, s, i⟩, hperm, hm, he, hp, hs, hi⟩
  · rintro ⟨d, hperm, hm, he, hp, hs, hi⟩
    refine ⟨(allows_known_iff deployerKeys).mpr (hkeys.mp hperm).1,
      (allows_required_iff hn deployerKeys).mpr (hkeys.mp hperm).2, hproperties.mpr ?_, trivial⟩
    exact ⟨(hmeta hperm).mpr ⟨_, hm⟩, (hpath hperm (by decide)).mpr ⟨_, he⟩,
      (hpath hperm (by decide)).mpr ⟨_, hp⟩, (hpath hperm (by decide)).mpr ⟨_, hs⟩,
      (hpath hperm (by decide)).mpr ⟨_, hi⟩, by simp⟩

/-- Any keys will do for several deployers. -/
theorem describes_deployers : Describes
    (.rules [.types [.object], .additionalProperties [] Schema.deployer]) IsDeployers := by
  refine Describes.object fun fields hjson => ?_
  have heach := (Value.isJson_object_iff.mp hjson).2
  simp only [Keyword.AllAllow, and_true, allows_values_iff]
  rw [exists_forall₂_iff]
  refine forall₂_congr fun f hf => (describes_deployer f.2 (heach f hf)).trans ⟨?_, ?_⟩
  · rintro ⟨d, hd⟩
    exact ⟨(f.1, d), rfl, hd⟩
  · rintro ⟨d, -, hd⟩
    exact ⟨d.2, hd⟩

/-- **Configurations are described.** -/
theorem describes_configuration : Describes Schema.configuration IsConfig := by
  refine Describes.object fun fields hjson => ?_
  have hn := (Value.isJson_object_iff.mp hjson).1
  have hproperties := allows_properties_iff hn [("include", Schema.listOf Schema.nonEmptyText),
    ("subgraphs", Schema.listOf Schema.nonEmptyText), ("meta", Schema.listOf Schema.metaEntry),
    ("deployers", .rules [.types [.object], .additionalProperties [] Schema.deployer])]
  simp only [List.forall_mem_cons] at hproperties
  have hroots := allows_mayHaveField_iff (k := "include") hjson
    (describes_spelled Path.ofText).list
  have hsubgraphs := allows_mayHaveField_iff (k := "subgraphs") hjson (describes_spelled id).list
  have hmetas := allows_mayHaveField_iff (k := "meta") hjson describes_meta.list
  have hdeployers := allows_mayHaveField_iff (k := "deployers") hjson describes_deployers
  simp only [Keyword.AllAllow]
  constructor
  · rintro ⟨hknown, hvalues, -⟩
    obtain ⟨hr, hs, hm, hd, -⟩ := hproperties.mp hvalues
    obtain ⟨r, hr⟩ := hroots.mp hr
    obtain ⟨s, hs⟩ := hsubgraphs.mp hs
    obtain ⟨m, hm⟩ := hmetas.mp hm
    obtain ⟨d, hd⟩ := hdeployers.mp hd
    exact ⟨⟨r, s, m, d⟩, (allows_known_iff configKeys).mp hknown, hr, hs, hm, hd⟩
  · rintro ⟨c, hknown, hr, hs, hm, hd⟩
    refine ⟨(allows_known_iff configKeys).mpr hknown, hproperties.mpr ?_, trivial⟩
    exact ⟨hroots.mpr ⟨_, hr⟩, hsubgraphs.mpr ⟨_, hs⟩, hmetas.mpr ⟨_, hm⟩, hdeployers.mpr ⟨_, hd⟩,
      by simp⟩

/-! ### What the models read -/

section Reading

variable {α : Type} {fields : List (Text × Value)}

@[simp] theorem entriesOf_entriesOfFields (fields : List (Text × Value)) :
    Model.entriesOf (Value.entriesOfFields fields) = fields :=
  Value.textEntries_entriesOfFields fields

/-- Several looks that all find something. -/
theorem all_of_forall₂ {as : List α} {rs : List (Modelled α)}
    (h : List.Forall₂ (fun a r => r = .ok a) as rs) : Modelled.all rs = .ok as := by
  induction h with
  | nil => rfl
  | cons ha _ ih =>
    subst ha
    simp only [Modelled.all, ih]

/-- **A list is read item by item.** -/
theorem listOf_of_isList {IsItem : α → Value → Prop} {look : Value → Modelled α}
    (hlook : ∀ a v, IsItem a v → look v = .ok a) (as : List α) (v : Value)
    (h : IsList IsItem as v) : Model.listOf look v = .ok as := by
  obtain ⟨heach⟩ := h
  refine all_of_forall₂ ?_
  generalize 0 = start
  induction heach generalizing start with
  | nil => exact .nil
  | cons ha _ ih =>
    refine .cons ?_ (ih (start + 1))
    simp only [hlook _ _ ha]
    rfl

theorem found?_of_mem (hn : (fields.map Prod.fst).Nodup) {k : Text} {v : Value}
    (hv : (k, v) ∈ fields) (others : List Text) :
    Model.found? (k :: others) (Value.entriesOfFields fields) = some (k, v) := by
  rw [Model.found?, List.findSome?_cons, (Value.fieldOf?_eq_some_iff hn).mpr hv]
  rfl

theorem optional_of_mem (hn : (fields.map Prod.fst).Nodup) {k : Text} {v : Value}
    (hv : (k, v) ∈ fields) {default a : α} {look : Value → Modelled α} (ha : look v = .ok a) :
    Model.optional k default look (Value.entriesOfFields fields) = .ok a := by
  rw [Model.optional, (Value.fieldOf?_eq_some_iff hn).mpr hv]
  simp only [ha]
  rfl

theorem optional_of_absent (hn : (fields.map Prod.fst).Nodup) {k : Text}
    (hnone : ∀ f ∈ fields, f.1 ≠ k) (default : α) (look : Value → Modelled α) :
    Model.optional k default look (Value.entriesOfFields fields) = .ok default := by
  rw [Model.optional, (Value.fieldOf?_eq_none_iff hn).mpr hnone]

/-- A field that has to be there is read. -/
theorem required_of_hasField (hn : (fields.map Prod.fst).Nodup) {IsValue : α → Value → Prop}
    {look : Value → Modelled α} (hlook : ∀ a v, IsValue a v → look v = .ok a) {k : Text} {a : α}
    (h : HasField k IsValue a fields) (others : List Text) :
    Model.required (k :: others) look (Value.entriesOfFields fields) = .ok a := by
  obtain ⟨v, hv, ha⟩ := h
  rw [Model.required, found?_of_mem hn hv others]
  simp only [hlook a v ha]
  rfl

/-- A field that may be left out is read. -/
theorem optional_of_mayHaveField (hn : (fields.map Prod.fst).Nodup)
    {IsValue : List α → Value → Prop} {look : Value → Modelled (List α)}
    (hlook : ∀ as v, IsValue as v → look v = .ok as) {k : Text} {as : List α}
    (h : MayHaveField k IsValue as fields) :
    Model.optional k [] look (Value.entriesOfFields fields) = .ok as := by
  rcases h with ⟨v, hv, has⟩ | ⟨rfl, hnone⟩
  · exact optional_of_mem hn hv (hlook as v has)
  · exact optional_of_absent hn hnone [] look

/-- **No key is too many** if each is the first one of some field. -/
theorem extras_eq_nil (hn : (fields.map Prod.fst).Nodup) {names : List Text}
    (hknown : ∀ f ∈ fields, f.1 ∈ names) {groups : List (List Text)}
    (hgroups : ∀ k ∈ names, ∃ keys ∈ groups, keys.head? = some k) :
    Model.extras groups (Value.entriesOfFields fields) = [] := by
  rw [Model.extras, List.map_eq_nil_iff, List.filter_eq_nil_iff, entriesOf_entriesOfFields]
  intro f hf
  obtain ⟨keys, hkeys, hhead⟩ := hgroups f.1 (hknown f hf)
  obtain ⟨others, rfl⟩ := List.head?_eq_some_iff.mp hhead
  have hused : f.1 ∈ groups.filterMap fun keys =>
      (Model.found? keys (Value.entriesOfFields fields)).map Prod.fst :=
    List.mem_filterMap.mpr ⟨_, hkeys, by rw [found?_of_mem hn hf others]; rfl⟩
  simpa using hused

/-- With keys that are no surrogates and nothing wrong, an object describes something. -/
theorem finish_of_keys (names : List Text)
    (hnames : ∀ k ∈ names, k.any CodePoint.isSurrogate = false)
    (hknown : ∀ f ∈ fields, f.1 ∈ names) (result : Modelled α) :
    Model.finish (Value.entriesOfFields fields) [] result = result := by
  have hbroken : Model.hasBrokenKey (Value.entriesOfFields fields) = false := by
    rw [Model.hasBrokenKey, entriesOf_entriesOfFields, List.any_eq_false]
    exact fun f hf => Bool.eq_false_iff.mp (hnames f.1 (hknown f hf))
  rw [Model.finish, hbroken]
  rfl

theorem path_of_isPath (p : Path) (v : Value) (h : IsPath p v) : Model.path v = .ok p := by
  obtain ⟨-⟩ := h
  rfl

theorem path?_of_isPath {p : Path} {v : Value} (h : IsPath p v) :
    Model.path? v = .ok (some p) := by
  obtain ⟨-⟩ := h
  rfl

theorem text_of_isSubgraph (t : Text) (v : Value) (h : IsSubgraph t v) :
    Model.text v = .ok t := by
  obtain ⟨-⟩ := h
  rfl

/-- An object with one of the two keys comes down to its two paths. -/
theorem ofDocument_eq_ofPaths {k : Text} {v : Value} (hk : k ∈ metaKeys) {binary hex : Option Path}
    (hbinary : Model.optional "binary" none Model.path? (Value.entriesOfFields [(k, v)]) =
      .ok binary)
    (hhex : Model.optional "hex" none Model.path? (Value.entriesOfFields [(k, v)]) = .ok hex) :
    MetaEntry.ofDocument (.object [(k, v)]) = MetaEntry.ofPaths binary hex := by
  have hn : ([(k, v)].map Prod.fst).Nodup := List.nodup_singleton k
  have hknown : ∀ f ∈ [(k, v)], f.1 ∈ metaKeys := List.forall_mem_singleton.mpr hk
  have hextras : Model.extras [["binary"], ["hex"]] (Value.entriesOfFields [(k, v)]) = [] :=
    extras_eq_nil hn hknown (by decide)
  simp only [Value.object, MetaEntry.ofDocument, hbinary, hhex, hextras, Modelled.errors,
    List.append_nil]
  exact finish_of_keys metaKeys (by decide) hknown _

/-- In an object with one key, its path is found and no other one. -/
theorem optional_path?_one {k : Text} {p : Path} {v : Value} (hp : IsPath p v) (k' : Text) :
    Model.optional k' none Model.path? (Value.entriesOfFields [(k, v)]) =
      .ok (if k = k' then some p else none) := by
  have hn : ([(k, v)].map Prod.fst).Nodup := List.nodup_singleton k
  by_cases h : k = k'
  · rw [if_pos h, ← h]
    exact optional_of_mem hn List.mem_cons_self (path?_of_isPath hp)
  · rw [if_neg h]
    exact optional_of_absent hn (List.forall_mem_singleton.mpr h) none Model.path?

/-- **A meta is read as it is written.** -/
theorem ofDocument_of_isMeta (m : MetaEntry) (v : Value) (h : IsMeta m v) :
    MetaEntry.ofDocument v = .ok m := by
  obtain ⟨hfields⟩ := h
  cases hfields with
  | binary hp =>
    rw [ofDocument_eq_ofPaths (by decide) (optional_path?_one hp "binary")
      (optional_path?_one hp "hex")]
    rfl
  | hex hp =>
    rw [ofDocument_eq_ofPaths (by decide) (optional_path?_one hp "binary")
      (optional_path?_one hp "hex")]
    rfl

/-- **A deployer is read as it is written.** -/
theorem ofDocument_of_isDeployer (d : DeployerConfig) (v : Value) (h : IsDeployer d v) :
    DeployerConfig.ofDocument v = .ok d := by
  obtain ⟨fields, rfl, hfields⟩ := isObject_iff.mp h
  have hn : (fields.map Prod.fst).Nodup := hfields.keys.nodup_iff.mpr (by decide)
  have hknown : ∀ f ∈ fields, f.1 ∈ deployerKeys := fun f hf =>
    hfields.keys.mem_iff.mp (List.mem_map_of_mem hf)
  have hextras : Model.extras [["constructionMeta", "construction_meta"],
      ["expressionDeployer", "expression_deployer"], ["parser"], ["store"], ["interpreter"]]
      (Value.entriesOfFields fields) = [] := extras_eq_nil hn hknown (by decide)
  simp only [Value.object, DeployerConfig.ofDocument,
    required_of_hasField hn ofDocument_of_isMeta hfields.constructionMeta,
    required_of_hasField hn path_of_isPath hfields.expressionDeployer,
    required_of_hasField hn path_of_isPath hfields.parser,
    required_of_hasField hn path_of_isPath hfields.store,
    required_of_hasField hn path_of_isPath hfields.interpreter,
    hextras, Modelled.errors, List.append_nil]
  exact finish_of_keys deployerKeys (by decide) hknown _

theorem objectOf_of_isDeployers (ds : List (Text × DeployerConfig)) (v : Value)
    (h : IsDeployers ds v) : Model.objectOf DeployerConfig.ofDocument v = .ok ds := by
  obtain ⟨heach⟩ := h
  simp only [Value.object, Model.objectOf, entriesOf_entriesOfFields]
  refine all_of_forall₂ (List.forall₂_map_right_iff.mpr (heach.imp ?_))
  rintro ⟨k, d⟩ f ⟨rfl, hd⟩
  rw [ofDocument_of_isDeployer d f.2 hd]
  rfl

/-- **A configuration is read as it is written.** -/
theorem ofDocument_of_isConfig {c : Config} {v : Value} (hv : v.IsJson) (h : IsConfig c v) :
    Config.ofDocument v = .ok c := by
  obtain ⟨fields, rfl, hfields⟩ := isObject_iff.mp h
  have hn := (Value.isJson_object_iff.mp hv).1
  have hextras : Model.extras [["include"], ["subgraphs"], ["meta"], ["deployers"]]
      (Value.entriesOfFields fields) = [] := extras_eq_nil hn hfields.known (by decide)
  simp only [Value.object, Config.ofDocument,
    optional_of_mayHaveField hn (listOf_of_isList path_of_isPath) hfields.roots,
    optional_of_mayHaveField hn (listOf_of_isList text_of_isSubgraph) hfields.subgraphs,
    optional_of_mayHaveField hn (listOf_of_isList ofDocument_of_isMeta) hfields.metas,
    optional_of_mayHaveField hn objectOf_of_isDeployers hfields.deployers,
    hextras, Modelled.errors, List.append_nil]
  exact finish_of_keys configKeys (by decide) hfields.known _

end Reading

end Grammar

end RainMeta
