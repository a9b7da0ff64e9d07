import Lifecycle.Proofs.Isolation

/-!
# Documents of two spaces in different contents

Two contents *share* the documents of two spaces when each of their indexes has the same ones of
them, under the same storage ids and in the same order, whatever else the indexes hold
(`Documents.Sharing`, `Memory.Sharing`). Of the bodies of policies only what is looked at has to be
the same.

A storage id is *clear* when no document of another space stands under it (`Documents.Clear`). What
is put under a storage id that is clear in both contents is put among the shared documents
(`Documents.Sharing.put`), and a removal takes from the shared documents what it takes from the
index (`Documents.Sharing.remove`). So such writes keep the sharing. Storage ids that are made for
the second space have to be clear from the start (`Documents.Guarded`), and those of found documents
are.
-/

namespace Lifecycle

variable {space target : Space} {sight : Table Json → Table Json}

/-- Whether a stored body belongs to one of two spaces. -/
def Scope.belongsToOne (space target : Space) (body : Table Json) : Bool :=
  belongs space body || belongs target body

theorem Scope.belongsToOne_of {named : Space} (hnamed : named = space ∨ named = target)
    {body : Table Json} (h : belongs named body = true) :
    belongsToOne space target body = true := by
  rw [belongsToOne, Bool.or_eq_true]
  rcases hnamed with rfl | rfl
  · exact .inl h
  · exact .inr h

namespace Documents

/-! ### Shared documents -/

/-- The documents of two spaces. -/
def ofSpaces (docs : Documents) (space target : Space) : Documents :=
  docs.filter fun entry => Scope.belongsToOne space target entry.2

/-- Bodies of documents as they are looked at. -/
def seen (sight : Table Json → Table Json) (docs : Documents) : Documents :=
  docs.map fun entry => (entry.1, sight entry.2)

/-- A storage id under which no document of a space other than two stands. -/
def Clear (docs : Documents) (space target : Space) (key : String) : Prop :=
  ∀ body, (key, body) ∈ docs → Scope.belongsToOne space target body = true

/-- An index where what stands under a storage id that is made for the second of two spaces belongs
to one of the two. -/
structure Guarded (docs : Documents) (space target : Space) : Prop where
  distinct : Table.Distinct docs
  made : ∀ id, docs.Clear space target (renderedId target id)

/-- Two indexes with the same documents of two spaces, as they are looked at. -/
structure Sharing (sight : Table Json → Table Json) (space target : Space)
    (docs other : Documents) : Prop where
  guarded : docs.Guarded space target
  guarded_other : other.Guarded space target
  shared : (docs.ofSpaces space target).seen sight = (other.ofSpaces space target).seen sight

variable {docs other : Documents} {key : String} {body twin : Table Json}

theorem seen_id (docs : Documents) : docs.seen id = docs := List.map_id' docs

/-- Documents of two spaces are found among all that belong to one of them. -/
theorem filter_ofSpaces {test : Query.Entry → Bool}
    (h : ∀ entry, test entry = true → Scope.belongsToOne space target entry.2 = true) :
    (docs.ofSpaces space target).filter test = docs.filter test := by
  rw [ofSpaces, List.filter_filter]
  apply List.filter_congr
  intro entry _
  rw [Bool.and_eq_left_iff_imp]
  exact h entry

/-- Indexes that share documents as they are have the same ones that pass a test of the two
spaces. -/
theorem Sharing.filter_eq (h : Sharing id space target docs other) {test : Query.Entry → Bool}
    (htest : ∀ entry, test entry = true → Scope.belongsToOne space target entry.2 = true) :
    docs.filter test = other.filter test := by
  have hshared := h.shared
  rw [seen_id, seen_id] at hshared
  rw [← filter_ofSpaces htest, hshared, filter_ofSpaces htest]

/-- What is shared as it is, is shared as it is looked at. -/
theorem Sharing.inSight (h : Sharing id space target docs other) (sight : Table Json → Table Json) :
    Sharing sight space target docs other := by
  have hshared := h.shared
  rw [seen_id, seen_id] at hshared
  exact ⟨h.guarded, h.guarded_other, by rw [hshared]⟩

/-! ### Writes -/

/-- The storage id of a document of one of the two spaces is clear. -/
theorem Guarded.clear_of_mem (h : docs.Guarded space target) (hmem : (key, body) ∈ docs)
    (hbody : Scope.belongsToOne space target body = true) : docs.Clear space target key := by
  intro found hfound
  have heq := List.inj_on_of_nodup_map h.distinct hfound hmem rfl
  rw [(Prod.mk.inj heq).2]
  exact hbody

/-- A write of a document of the two spaces leaves what is clear so. -/
theorem Clear.put {cleared : String} (hcleared : docs.Clear space target cleared)
    (h : Table.Distinct docs) (hbody : Scope.belongsToOne space target body = true) :
    Clear (Table.put docs key body) space target cleared := by
  intro found hfound
  rcases (h.mem_put key body (cleared, found)).mp hfound with heq | ⟨hold, -⟩
  · rw [(Prod.mk.inj heq).2]
    exact hbody
  · exact hcleared found hold

theorem Clear.remove {cleared : String} (hcleared : docs.Clear space target cleared) :
    Clear (Table.remove docs key) space target cleared :=
  fun found hfound => hcleared found ((Table.mem_remove docs key _).mp hfound).1

theorem Guarded.put (h : docs.Guarded space target)
    (hbody : Scope.belongsToOne space target body = true) :
    Guarded (Table.put docs key body) space target :=
  ⟨h.distinct.put key body, fun id => (h.made id).put h.distinct hbody⟩

theorem Guarded.remove (h : docs.Guarded space target) (key : String) :
    Guarded (Table.remove docs key) space target :=
  ⟨h.distinct.remove key, fun id => (h.made id).remove⟩

/-- What is put under a clear storage id is put among the documents of the two spaces. -/
theorem ofSpaces_put (hkey : docs.Clear space target key)
    (hbody : Scope.belongsToOne space target body = true) :
    ofSpaces (Table.put docs key body) space target =
      Table.put (docs.ofSpaces space target) key body :=
  Table.filter_put_of hbody hkey

/-- Documents that look the same, put under a storage id that is clear in both indexes, are
shared. -/
theorem Sharing.put (h : Sharing sight space target docs other)
    (hkey : docs.Clear space target key) (hkey' : other.Clear space target key)
    (hbody : Scope.belongsToOne space target body = true)
    (htwin : Scope.belongsToOne space target twin = true) (hsight : sight body = sight twin) :
    Sharing sight space target (Table.put docs key body) (Table.put other key twin) where
  guarded := h.guarded.put hbody
  guarded_other := h.guarded_other.put htwin
  shared := by
    have hshared := h.shared
    unfold seen at hshared ⊢
    rw [ofSpaces_put hkey hbody, ofSpaces_put hkey' htwin, Table.map_put, Table.map_put, hshared,
      hsight]

theorem Sharing.remove (h : Sharing sight space target docs other) (key : String) :
    Sharing sight space target (Table.remove docs key) (Table.remove other key) where
  guarded := h.guarded.remove key
  guarded_other := h.guarded_other.remove key
  shared := by
    have hshared := h.shared
    unfold seen ofSpaces at hshared ⊢
    rw [Table.filter_remove_comm, Table.filter_remove_comm, Table.map_remove, Table.map_remove,
      hshared]

end Documents

/-! ### Contents -/

/-- Two contents that share the documents of two spaces: those of the entities as they are, and the
policies as they are looked at. -/
structure Memory.Sharing (sight : Table Json → Table Json) (space target : Space)
    (memory other : Memory) : Prop where
  entities : ∀ type, Documents.Sharing id space target (memory.entities type) (other.entities type)
  policies : Documents.Sharing sight space target memory.policies other.policies

namespace Memory

variable {memory other : Memory}

theorem Sharing.inSight (h : Sharing id space target memory other)
    (sight : Table Json → Table Json) : Sharing sight space target memory other :=
  ⟨h.entities, h.policies.inSight sight⟩

/-- Calls about the index of a type keep the sharing that keep it there. -/
theorem Sharing.apply_entity (h : Sharing sight space target memory other) {call twin : Call}
    {type : EntityType} (hindex : call.index = ({} : ContentSettings).indexFor type)
    (hindex' : twin.index = ({} : ContentSettings).indexFor type)
    (hdocs : Documents.Sharing id space target ((memory.apply call).entities type)
      ((other.apply twin).entities type)) :
    Sharing sight space target (memory.apply call) (other.apply twin) := by
  have hpolicies : ∀ (memory : Memory) {call : Call},
      call.index = ({} : ContentSettings).indexFor type →
        (memory.apply call).policies = memory.policies :=
    fun memory _ hcall => documents_apply_of_ne (hcall ▸ indexFor_ne_policies type)
  have hentities : ∀ (memory : Memory) {call : Call} {found : EntityType}, found ≠ type →
      call.index = ({} : ContentSettings).indexFor type →
        (memory.apply call).entities found = memory.entities found :=
    fun memory _ found hne hcall =>
      documents_apply_of_ne fun heq => hne (indexFor_injective (heq.symm.trans hcall))
  refine ⟨fun found => ?_, ?_⟩
  · by_cases hfound : found = type
    · rw [hfound]
      exact hdocs
    · rw [hentities memory hfound hindex, hentities other hfound hindex']
      exact h.entities found
  · rw [hpolicies memory hindex, hpolicies other hindex']
    exact h.policies

/-- A copy that is put under a clear storage id is shared. -/
theorem Sharing.put (h : Sharing sight space target memory other) {type : EntityType}
    {key : String} {body : Table Json} (hkey : (memory.entities type).Clear space target key)
    (hkey' : (other.entities type).Clear space target key)
    (hbody : Scope.belongsToOne space target body = true) :
    Sharing sight space target
      (memory.apply (.upsert (({} : ContentSettings).indexFor type) key body))
      (other.apply (.upsert (({} : ContentSettings).indexFor type) key body)) := by
  refine h.apply_entity rfl rfl ?_
  have hdocs : ∀ memory : Memory,
      (memory.apply (.upsert (({} : ContentSettings).indexFor type) key body)).entities type =
        Table.put (memory.entities type) key body := fun memory => documents_put memory _ _ _
  rw [hdocs, hdocs]
  exact (h.entities type).put hkey hkey' hbody hbody rfl

/-- A removal takes the same from the shared copies. -/
theorem Sharing.remove (h : Sharing sight space target memory other) (type : EntityType)
    (key : String) :
    Sharing sight space target
      (memory.apply (.delete (({} : ContentSettings).indexFor type) key))
      (other.apply (.delete (({} : ContentSettings).indexFor type) key)) := by
  refine h.apply_entity rfl rfl ?_
  have hdocs : ∀ memory : Memory,
      (memory.apply (.delete (({} : ContentSettings).indexFor type) key)).entities type =
        Table.remove (memory.entities type) key := fun memory => documents_delete memory _ _
  rw [hdocs, hdocs]
  exact (h.entities type).remove key

/-- Policies that look the same, put under a clear storage id, are shared. -/
theorem Sharing.put_policy (h : Sharing sight space target memory other) {key : String}
    {body twin : Table Json} (hkey : memory.policies.Clear space target key)
    (hkey' : other.policies.Clear space target key)
    (hbody : Scope.belongsToOne space target body = true)
    (htwin : Scope.belongsToOne space target twin = true) (hsight : sight body = sight twin) :
    Sharing sight space target (memory.apply (.upsert ".cti-policies" key body))
      (other.apply (.upsert ".cti-policies" key twin)) := by
  have hdocs : ∀ (memory : Memory) (body : Table Json),
      (memory.apply (.upsert ".cti-policies" key body)).policies =
        Table.put memory.policies key body := fun memory _ => documents_put memory _ _ _
  have hentities : ∀ (memory : Memory) (body : Table Json) (type : EntityType),
      (memory.apply (.upsert ".cti-policies" key body)).entities type = memory.entities type :=
    fun memory body type => documents_apply_of_ne (indexFor_ne_policies type).symm
  refine ⟨fun type => ?_, ?_⟩
  · rw [hentities, hentities]
    exact h.entities type
  · rw [hdocs, hdocs]
    exact h.policies.put hkey hkey' hbody htwin hsight

end Memory

end Lifecycle
