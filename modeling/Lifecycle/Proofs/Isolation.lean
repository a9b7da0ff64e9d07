import Lifecycle.Proofs.Courses
import Lifecycle.Proofs.Interruption

/-!
# Writes that stay in a space

An index is *parted* among the spaces when each of its documents belongs to exactly one of them, and
what stands under a storage id that is made for a space belongs to it (`Documents.Parted`). A
storage id is *open* to a space when nothing of another space stands under it, and it is made for no
other space (`Documents.Open`).

A write *stays in* a space when it puts a document of the space, or removes one, under a storage id
that is open to the space (`Call.StaysIn`). Such writes keep the indexes parted and leave the
documents of all other spaces as they are (`Memory.Kept`); and since a storage id that is open stays
so, whole scripts of them do (`Memory.kept_replay`). All that a commit writes stays in the successor
(`Commit.Stage.staysIn`), so that every beginning of its schedule keeps the other spaces
(`Commit.kept_of_prefix_schedule`).
-/

namespace Lifecycle

/-! ### Parted indexes -/

namespace Documents

/-- An index whose documents belong to one space each, also by the storage ids that are made for
spaces. -/
structure Parted (docs : Documents) : Prop where
  distinct : Table.Distinct docs
  oneSpace : ∀ entry ∈ docs, ∃ space, ∀ other, Scope.belongs other entry.2 = true ↔ other = space
  placed : ∀ entry ∈ docs, ∀ space id,
    ({} : ContentSettings).documentId space.name id = .ok entry.1 →
      Scope.belongs space entry.2 = true

/-- A storage id that holds no document of another space, and is made for no other space. -/
structure Open (docs : Documents) (space : Space) (key : String) : Prop where
  held : ∀ body, (key, body) ∈ docs → Scope.belongs space body = true
  made : ∀ other id, ({} : ContentSettings).documentId other.name id = .ok key → other = space

/-- The documents that do not belong to a space. -/
def apart (docs : Documents) (space : Space) : Documents :=
  docs.filter fun entry => !Scope.belongs space entry.2

/-- The documents that belong to a space. -/
def part (docs : Documents) (space : Space) : Documents :=
  docs.filter fun entry => Scope.belongs space entry.2

variable {docs : Documents} {space : Space} {key : String} {body : Table Json}

namespace Parted

variable (h : docs.Parted)

include h

theorem eq_of_belongs {entry : Query.Entry} (hmem : entry ∈ docs) {other : Space}
    (hspace : Scope.belongs space entry.2 = true) (hother : Scope.belongs other entry.2 = true) :
    space = other := by
  obtain ⟨origin, horigin⟩ := h.oneSpace entry hmem
  rw [(horigin space).mp hspace, (horigin other).mp hother]

/-- The storage id of a document is open to the space of the document. -/
theorem open_of_mem {entry : Query.Entry} (hmem : entry ∈ docs)
    (hbelongs : Scope.belongs space entry.2 = true) : docs.Open space entry.1 where
  held body hbody := by
    have heq := List.inj_on_of_nodup_map h.distinct hbody hmem rfl
    rw [← heq] at hbelongs
    exact hbelongs
  made other id hplace := h.eq_of_belongs hmem (h.placed entry hmem other id hplace) hbelongs

/-- A storage id that is made for a space is open to it. -/
theorem open_renderedId (space : Space) (id : String) : docs.Open space (renderedId space id) where
  held body hbody := h.placed _ hbody space id (documentId_eq space id)
  made other name hplace := by
    rw [documentId_eq] at hplace
    exact (renderedId_injective (Except.ok.inj hplace)).1

/-- Documents of a space are found among those apart from another one. -/
theorem part_apart {target : Space} (hne : space ≠ target) :
    (docs.apart target).part space = docs.part space := by
  rw [part, apart, List.filter_filter, part]
  apply List.filter_congr
  intro entry hmem
  rw [Bool.and_eq_left_iff_imp]
  intro hspace
  rw [Bool.not_eq_true', ← Bool.not_eq_true]
  exact fun htarget => hne (h.eq_of_belongs hmem hspace htarget)

/-- A document of a space that is put under a storage id that is open to it keeps an index
parted. -/
theorem put (hkey : docs.Open space key)
    (hbody : ∀ other, Scope.belongs other body = true ↔ other = space) :
    Parted (Table.put docs key body) where
  distinct := h.distinct.put key body
  oneSpace entry hmem := by
    rcases (h.distinct.mem_put key body entry).mp hmem with rfl | ⟨hold, -⟩
    · exact ⟨space, hbody⟩
    · exact h.oneSpace entry hold
  placed entry hmem other id hplace := by
    rcases (h.distinct.mem_put key body entry).mp hmem with rfl | ⟨hold, -⟩
    · exact (hbody other).mpr (hkey.made other id hplace)
    · exact h.placed entry hold other id hplace

theorem remove (key : String) : Parted (Table.remove docs key) where
  distinct := h.distinct.remove key
  oneSpace entry hmem := h.oneSpace entry ((Table.mem_remove docs key entry).mp hmem).1
  placed entry hmem := h.placed entry ((Table.mem_remove docs key entry).mp hmem).1

end Parted

/-- What is open to a space stays so when a document of the space is put. -/
theorem Open.put {other : String} (hother : docs.Open space other) (h : docs.Parted)
    (hbody : Scope.belongs space body = true) : Open (Table.put docs key body) space other where
  held found hmem := by
    rcases (h.distinct.mem_put key body (other, found)).mp hmem with heq | ⟨hold, -⟩
    · rw [(Prod.mk.inj heq).2]
      exact hbody
    · exact hother.held found hold
  made := hother.made

theorem Open.remove {other : String} (hother : docs.Open space other) :
    Open (Table.remove docs key) space other where
  held found hmem := hother.held found ((Table.mem_remove docs key _).mp hmem).1
  made := hother.made

/-- A write under a storage id that is open to a space leaves the documents of all others. -/
theorem Open.apart_put (hkey : docs.Open space key) (hbody : Scope.belongs space body = true) :
    apart (Table.put docs key body) space = docs.apart space :=
  Table.filter_put docs key body _ (by rw [hbody]; rfl) fun earlier hmem => by
    rw [hkey.held earlier hmem]
    rfl

theorem Open.apart_remove (hkey : docs.Open space key) :
    apart (Table.remove docs key) space = docs.apart space :=
  Table.filter_remove docs key _ fun earlier hmem => by
    rw [hkey.held earlier hmem]
    rfl

end Documents

/-! ### Writes -/

namespace Memory

/-- Contents whose indexes are parted among the spaces. -/
def Parted (memory : Memory) : Prop :=
  ∀ index ∈ contentIndexes, (memory.documents index).Parted

/-- What contents are after writes that stay in a space: parted again, with the same documents of
all other spaces, and with the storage ids still open to the space that were. -/
structure Kept (memory later : Memory) (space : Space) : Prop where
  parted : later.Parted
  apart : ∀ index, (later.documents index).apart space = (memory.documents index).apart space
  opened : ∀ index key, (memory.documents index).Open space key →
    (later.documents index).Open space key

variable {memory later last : Memory} {space : Space}

theorem Kept.refl (h : memory.Parted) (space : Space) : memory.Kept memory space :=
  ⟨h, fun _ => rfl, fun _ _ => id⟩

theorem Kept.trans (h : memory.Kept later space) (h' : later.Kept last space) :
    memory.Kept last space where
  parted := h'.parted
  apart index := (h'.apart index).trans (h.apart index)
  opened index key := h'.opened index key ∘ h.opened index key

/-- The documents of another space are the same. -/
theorem Kept.part {other : Space} (h : memory.Kept later space) (hmemory : memory.Parted)
    (hne : other ≠ space) {index : String} (hindex : index ∈ contentIndexes) :
    (later.documents index).part other = (memory.documents index).part other := by
  rw [← (h.parted index hindex).part_apart hne, h.apart, (hmemory index hindex).part_apart hne]

end Memory

/-- Whether a write stays in a space: it is about a storage id that is open to the space, and a
document that is put belongs to the space only. -/
def Call.StaysIn (memory : Memory) (space : Space) : Call → Prop
  | .upsert index id body =>
    index ∈ contentIndexes ∧ (memory.documents index).Open space id ∧
      ∀ other, Scope.belongs other body = true ↔ other = space
  | .delete index id => index ∈ contentIndexes ∧ (memory.documents index).Open space id
  | .search .. | .byIds .. | .fieldCapabilities .. => True

theorem Call.StaysIn.mono {memory later : Memory} {space : Space} {call : Call}
    (h : call.StaysIn memory space) (hlater : memory.Kept later space) :
    call.StaysIn later space := by
  cases call with
  | upsert index id body => exact ⟨h.1, hlater.opened index id h.2.1, h.2.2⟩
  | delete index id => exact ⟨h.1, hlater.opened index id h.2⟩
  | _ => trivial

namespace Memory

variable {memory : Memory} {space : Space}

/-- A change of one index of some contents keeps them if it keeps the index. -/
theorem kept_apply_of {call : Call} (h : memory.Parted)
    (hparted : ((memory.apply call).documents call.index).Parted)
    (hapart : ((memory.apply call).documents call.index).apart space =
      (memory.documents call.index).apart space)
    (hopen : ∀ key, (memory.documents call.index).Open space key →
      ((memory.apply call).documents call.index).Open space key) :
    memory.Kept (memory.apply call) space := by
  have hsame : ∀ index, call.index ≠ index →
      (memory.apply call).documents index = memory.documents index :=
    fun index hne => documents_apply_of_ne hne
  refine ⟨fun index hindex => ?_, fun index => ?_, fun index => ?_⟩ <;>
    by_cases hne : call.index = index
  · exact hne ▸ hparted
  · rw [hsame index hne]
    exact h index hindex
  · exact hne ▸ hapart
  · rw [hsame index hne]
  · exact hne ▸ hopen
  · rw [hsame index hne]
    exact fun _ => id

/-- One write that stays in a space keeps the contents. -/
theorem kept_apply (h : memory.Parted) {call : Call} (hcall : call.StaysIn memory space) :
    memory.Kept (memory.apply call) space := by
  cases call with
  | upsert index id body =>
    obtain ⟨hindex, hkey, hbody⟩ := hcall
    have hspace := (hbody space).mpr rfl
    have hdocs : (memory.apply (.upsert index id body)).documents index =
        Table.put (memory.documents index) id body := documents_put memory index id body
    apply kept_apply_of h <;> rw [Call.index, hdocs]
    · exact (h index hindex).put hkey hbody
    · exact hkey.apart_put hspace
    · exact fun key hopen => hopen.put (h index hindex) hspace
  | delete index id =>
    obtain ⟨hindex, hkey⟩ := hcall
    have hdocs : (memory.apply (.delete index id)).documents index =
        Table.remove (memory.documents index) id := documents_delete memory index id
    apply kept_apply_of h <;> rw [Call.index, hdocs]
    · exact (h index hindex).remove id
    · exact hkey.apart_remove
    · exact fun key hopen => hopen.remove
  | _ => exact .refl h space

/-- Writes that stay in a space keep the contents, one after another. -/
theorem kept_replay (h : memory.Parted) {calls : List Call}
    (hcalls : ∀ call ∈ calls, call.StaysIn memory space) :
    memory.Kept (memory.replay calls) space := by
  -- the later calls stay in the space of the contents that the first one leaves, since the storage
  -- ids that were open are so still
  induction calls generalizing memory with
  | nil => exact .refl h space
  | cons call rest ih =>
    have hfirst := kept_apply h (hcalls call List.mem_cons_self)
    exact hfirst.trans (ih hfirst.parted fun other hother =>
      (hcalls other (List.mem_cons_of_mem _ hother)).mono hfirst)

end Memory

/-! ### Policies -/

namespace Policies

variable {memory : Memory} {space target : Space}

/-- The document that a policy is found in belongs to the space. -/
theorem mem_of_found (hmapped : memory.Mapped) {record : PolicyRecord}
    (h : found? memory space = .ok (some record)) :
    (record.docId, record.source) ∈ memory.policies ∧
      Scope.belongs space record.source = true := by
  rw [found?_eq hmapped] at h
  exact Documents.policyOf?_mem (Documents.stored?_eq_some h).1

/-- Saving a policy over that of its space, or as a new one in the shape of another, stays in the
space. -/
theorem staysIn_saveCall (h : memory.Parted) (hmapped : memory.Mapped)
    {current shape : Option PolicyRecord} (hcurrent : found? memory target = .ok current)
    (hshape : current = none → ∃ record space, shape = some record ∧
      found? memory space = .ok (some record)) (document : Policy) (time : Instant) :
    (saveCall target document current shape time).StaysIn memory target := by
  have hindex : ".cti-policies" ∈ contentIndexes := by decide
  rw [saveCall]
  cases current with
  | some record =>
    obtain ⟨hmem, hbelongs⟩ := mem_of_found hmapped hcurrent
    exact ⟨hindex, (h _ hindex).open_of_mem hmem hbelongs, belongs_savedBody hbelongs _⟩
  | none =>
    obtain ⟨record, space, rfl, hrecord⟩ := hshape rfl
    obtain ⟨-, hbelongs⟩ := mem_of_found hmapped hrecord
    exact ⟨hindex, (h _ hindex).open_renderedId target _, belongs_savedBody hbelongs _⟩

end Policies

/-! ### Commits -/

namespace Commit

open Policies

variable {plan : EntityType → List Change} {space target : Space} {time : Instant}
  {memory : Memory}

/-- A copy that is found is a document of the space. -/
theorem open_of_copy? (h : memory.Parted) (hmapped : memory.Mapped) {type : EntityType}
    {ids : List String} {id : String} {entry : Query.Entry}
    (hfound : memory.copy? type ids space id = some entry) :
    Scope.belongs space entry.2 = true ∧ (memory.entities type).Open space entry.1 := by
  obtain ⟨hmem, hcarries, -⟩ := Memory.copy?_mem hfound
  rw [Memory.carries_eq (hmapped.mapping (indexFor_mem type))] at hcarries
  exact ⟨hcarries, (h _ (indexFor_mem type)).open_of_mem hmem hcarries⟩

/-- All calls of a stage stay in the successor. -/
theorem Stage.staysIn (h : memory.Parted) (hmapped : memory.Mapped) {stage : Stage}
    {calls : List Call} (hcalls : stage.calls plan space target time memory = .ok calls) :
    ∀ call ∈ calls, call.StaysIn memory target := by
  cases stage with
  | write type =>
    rw [Stage.calls] at hcalls
    split at hcalls
    · rename_i hnone
      rw [← Except.ok.inj hcalls]
      intro call hcall
      obtain ⟨id, hid, rfl⟩ := List.mem_map.mp hcall
      refine ⟨indexFor_mem type, ?_, ?_⟩
      · unfold placeIn
        cases hcopy : memory.copy? type (writeIds plan type) target id with
        | some entry => exact (open_of_copy? h hmapped hcopy).2
        | none => exact (h _ (indexFor_mem type)).open_renderedId target id
      · -- no source is missing
        have hsource : (memory.copy? type (writeIds plan type) space id).isSome = true := by
          by_contra hnot
          have hmissing : id ∈ missing plan space memory type :=
            List.mem_filter.mpr ⟨hid, by simpa using hnot⟩
          rw [hnone] at hmissing
          cases hmissing
        obtain ⟨entry, hentry⟩ := Option.isSome_iff_exists.mp hsource
        rw [bodyIn, hentry]
        exact Content.belongs_successorBody (open_of_copy? h hmapped hentry).1
    · cases hcalls
  | policy =>
    obtain ⟨source, current, hsource, hcurrent, rfl⟩ := policy_calls_eq_ok_iff.mp hcalls
    intro call hcall
    rw [policyCalls] at hcall
    split at hcall
    · cases hcall
    · rw [List.mem_singleton.mp hcall]
      exact staysIn_saveCall h hmapped hcurrent (fun _ => ⟨source, space, rfl, hsource⟩) _ _
  | remove type =>
    rw [Stage.calls] at hcalls
    rw [← Except.ok.inj hcalls]
    intro call hcall
    obtain ⟨id, -, hcall⟩ := List.mem_filterMap.mp hcall
    obtain ⟨key, hkey, rfl⟩ := Option.map_eq_some_iff.mp hcall
    obtain ⟨entry, hentry, rfl⟩ := Option.map_eq_some_iff.mp hkey
    exact ⟨indexFor_mem type, (open_of_copy? h hmapped hentry).2⟩

/-- However far a commit comes in its schedule, what it has written stays in the successor. -/
theorem kept_of_prefix_schedule (h : memory.Parted) (hmapped : memory.Mapped)
    {stages : List Stage} {calls : List Call}
    (hcalls : calls <+: schedule (Stage.calls plan space target time) stages memory) :
    memory.Kept (memory.replay calls) target := by
  -- each stage asks by the contents that it finds, so that its calls are known to stay in the
  -- successor only when the stages before it are done
  induction stages generalizing memory calls with
  | nil =>
    rw [schedule, List.prefix_nil] at hcalls
    rw [hcalls]
    exact .refl h target
  | cons stage rest ih =>
    cases hasked : stage.calls plan space target time memory with
    | error fault =>
      rw [schedule, hasked, List.prefix_nil] at hcalls
      rw [hcalls]
      exact .refl h target
    | ok asked =>
      have hstays := Stage.staysIn h hmapped hasked
      rw [schedule_cons hasked] at hcalls
      rcases prefix_within_or_behind hcalls with hwithin | ⟨more, hmore, rfl⟩
      · exact Memory.kept_replay h fun call hcall => hstays call (hwithin.subset hcall)
      · have hfirst := Memory.kept_replay h hstays
        rw [Memory.replay_append]
        exact hfirst.trans (ih hfirst.parted (hmapped.replay asked) hmore)

/-- A step reports its fault as that of a stale change or of a failure. -/
theorem category_named (name : String) (fault : Fault) :
    (named name fault).category = .staleReference ∨
      (named name fault).category = .backendFailure := by
  cases fault with
  | stale type ids => exact .inl rfl
  | _ => exact .inr rfl

/-- A promotion that is refused before its commit leaves the contents; any other keeps all but the
documents of the successor, and is not refused. -/
theorem kept_of_promote {deployment : Deployment} {world : World} (h : deployment.Standard)
    (hworld : world.Standing) (hparted : world.memory.Parted) (space : Space)
    (submitted : ChangeSet) :
    ∃ outcome later done failed,
      (promote space submitted).runOn deployment world = (outcome, later) ∧
      world.After done failed later ∧
      (later.memory = world.memory ∨ ∃ target, space.next? = some target ∧
        world.memory.Kept later.memory target ∧ ∀ fault, outcome = .error fault →
          fault.category = .staleReference ∨ fault.category = .backendFailure) := by
  have hnext : space.target? = space.next? := by cases space <;> rfl
  cases htarget : space.target? with
  | none =>
    have hrun : (promote space submitted).runOn deployment world =
        (.error (.notAllowed space.name Action.promote.name), world) := by
      rw [promote, Work.runOn_bind, Work.runOn_ofExcept, Preview.successor, htarget]
    exact ⟨_, world, [], none, hrun, .refl world, .inl rfl⟩
  | some target =>
    obtain ⟨outcome, later, done, failed, hrun, hafter, hcourse⟩ :=
      promote_course h hworld.probed htarget submitted
    refine ⟨outcome, later, done, failed, hrun, hafter, ?_⟩
    -- the gate stops it, or the ledger does, or its commit has begun
    rcases hcourse with ⟨_, _, _, _, rfl, _⟩ | ⟨_, _, ⟨_, _, _, _, rfl, _⟩ | hcommit⟩
    · exact .inl hafter.memory
    · exact .inl hafter.memory
    · obtain ⟨fresh, read, time, -, hcourse⟩ := hcommit
      refine .inr ⟨target, hnext ▸ htarget, ?_, fun fault hfault => ?_⟩
      · rw [hafter.memory]
        have hdone := (List.prefix_append done failed.toList).trans hcourse.issued
        exact kept_of_prefix_schedule hparted hworld.mapped hdone
      · rw [hfault] at hcourse
        obtain ⟨_, stage, _, _, -, -, -, ⟨cause, -, rfl, -⟩ | ⟨cause, -, rfl, -⟩⟩ := hcourse.stopped
        · exact category_named stage.name cause
        · exact category_named stage.name cause

end Commit

end Lifecycle
