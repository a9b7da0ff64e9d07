import Lifecycle.Proofs.Convergence
import Lifecycle.Proofs.Hashes
import Lifecycle.Proofs.Interruption

/-!
# References while a promotion runs

Integrations refer to decoders, key-value databases and rules, and a policy to integrations and to
its root decoder. A space is *closed* when all that is referred to is there (`Memory.Closed`). If a
space and its successor are closed, the successor is closed after each single write of a promotion
of what was shown, also where a failing call halts it (`promote_keeps_closed`).

This rests on the order of the writes (`Commit.Reached`): what is referred to is written before what
refers to it, and removed behind it. It also rests on what the content hashes tell: an integration
that is not written has the references of its source, unless two of the hashed documents collide.
-/

namespace Lifecycle

variable {deployment : Deployment} {world : World} {memory : Memory} {space target : Space}

/-! ### Closed spaces -/

/-- A space whose integrations list only ids of its decoders, key-value databases and rules, and
whose policy names only its integrations and decoders. -/
structure Memory.Closed (memory : Memory) (space : Space) : Prop where
  integrations : ∀ entry ∈ memory.entities .integrations, Scope.belongs space entry.2 = true →
    ∀ type, type ≠ .integrations → ∀ item ∈ Content.listed type.name entry.2,
      ∃ id, item = .text id ∧ (memory.entities type).Has space id
  policy : ∀ record, Policies.stored? memory.policies space = .ok (some record) →
    (∀ id ∈ record.document.integrations, (memory.entities .integrations).Has space id) ∧
      (record.document.rootDecoder ≠ "" →
        (memory.entities .decoders).Has space record.document.rootDecoder)

/-! ### Copies while documents are edited -/

namespace Ledger

variable {docs : Documents} {written removed : List String}

section

variable (h : docs.Orderly) (hwritten : written <+: writesIn docs space target)
  (hremoved : removed <+: removalsIn docs space target)

include h hwritten hremoved

theorem edited_part :
    docs.Changed (docs.edited space target written removed) target (written ++ removed) ∧
      (∀ id ∈ written, (docs.edited space target written removed).copyOf? target id =
        some (docs.placeOf target id, Commit.bodyFor docs space target id)) ∧
      ∀ id ∈ removed, (docs.edited space target written removed).copyOf? target id = none := by
  have hparts := hwritten.sublist.append hremoved.sublist
  exact Documents.edited_changed h target (hparts.nodup (nodup_writesIn_append h space target))
    fun id hid => has_of_mem_writesIn h (hwritten.subset hid)

/-- What the successor has is there until it is removed. -/
theorem has_edited_of_has {id : String} (hhas : docs.Has target id) (hid : id ∉ removed) :
    (docs.edited space target written removed).Has target id := by
  obtain ⟨hchanged, hcopies, -⟩ := edited_part h hwritten hremoved
  rw [Documents.Has]
  by_cases hin : id ∈ written
  · rw [hcopies id hin]
    rfl
  · rw [hchanged.copyOf?_eq h fun _ hmem => (List.mem_append.mp hmem).elim hin hid]
    exact hhas

/-- When all is written, the successor has what the space has. -/
theorem has_edited_of_source {id : String} (hall : written = writesIn docs space target)
    (hhas : docs.Has space id) : (docs.edited space target written removed).Has target id := by
  have hkept : id ∉ removalsIn docs space target := by
    intro hid
    rw [Documents.Has, copyOf?_eq_none_of_mem_removalsIn h hid] at hhas
    cases hhas
  by_cases hin : id ∈ written
  · obtain ⟨-, hcopies, -⟩ := edited_part h hwritten hremoved
    rw [Documents.Has, hcopies id hin]
    rfl
  · have hsame := contentOf?_eq_of_not_mem h (by rwa [← hall]) hkept
    have htarget : docs.Has target id := by
      have hsome : (contentOf? docs space id).isSome = true := by
        rwa [contentOf?, Option.isSome_map]
      rwa [hsame, contentOf?, Option.isSome_map] at hsome
    exact has_edited_of_has h hwritten hremoved htarget fun hid => hkept (hremoved.subset hid)

/-- A copy in the successor is made from that of the space, or was there before. -/
theorem edited_cases {entry : Query.Entry}
    (hentry : entry ∈ docs.edited space target written removed)
    (hbelongs : Scope.belongs target entry.2 = true) :
    (Content.idOf entry.2 ∈ written ∧
        entry.2 = Commit.bodyFor docs space target (Content.idOf entry.2)) ∨
      (Content.idOf entry.2 ∉ written ∧ Content.idOf entry.2 ∉ removed ∧ entry ∈ docs) := by
  obtain ⟨hchanged, hcopies, hgone⟩ := edited_part h hwritten hremoved
  have hcopy := (hchanged.orderly.copyOf?_eq_some_iff entry).mpr
    ⟨hentry, (Content.isCopy_iff target _ entry.2).mpr ⟨hbelongs, rfl⟩⟩
  by_cases hin : Content.idOf entry.2 ∈ written
  · rw [hcopies _ hin] at hcopy
    exact .inl ⟨hin, (congrArg Prod.snd (Option.some.inj hcopy)).symm⟩
  · have hnot : Content.idOf entry.2 ∉ removed := by
      intro hid
      rw [hgone _ hid] at hcopy
      cases hcopy
    rw [hchanged.copyOf?_eq h fun _ hmem => (List.mem_append.mp hmem).elim hin hnot] at hcopy
    exact .inr ⟨hin, hnot, (Documents.copyOf?_mem hcopy).1⟩

end

/-- What is neither written nor removed has a copy with the same content in the space. -/
theorem exists_source_of_not_mem (h : docs.Orderly) {entry : Query.Entry} (hentry : entry ∈ docs)
    (hbelongs : Scope.belongs target entry.2 = true)
    (hwrites : Content.idOf entry.2 ∉ writesIn docs space target)
    (hremovals : Content.idOf entry.2 ∉ removalsIn docs space target) :
    ∃ source ∈ docs, Scope.belongs space source.2 = true ∧
      Content.hash (Commit.documentOf entry.2) [] =
        Content.hash (Commit.documentOf source.2) [] := by
  have hcopy := (h.copyOf?_eq_some_iff entry).mpr
    ⟨hentry, (Content.isCopy_iff target _ entry.2).mpr ⟨hbelongs, rfl⟩⟩
  have hsame := contentOf?_eq_of_not_mem h hwrites hremovals
  rw [contentOf?, contentOf?, hcopy, Option.map_some] at hsame
  obtain ⟨source, hsource, hhash⟩ := Option.map_eq_some_iff.mp hsame
  obtain ⟨hmem, hthere⟩ := Documents.copyOf?_mem hsource
  exact ⟨source, hmem, ((Content.isCopy_iff _ _ _).mp hthere).1, hhash.symm⟩

end Ledger

/-! ### Closed at each point of a script -/

theorem EntityType.name_ne_space (type : EntityType) : type.name ≠ "space" := by
  cases type <;> decide

theorem EntityType.name_not_mem_volatileKeys (type : EntityType) :
    type.name ∉ Content.volatileKeys := by
  cases type <;> decide

/-- The copy of an integration lists what its source lists. -/
theorem Content.listed_successorBody {source : Table Json} (h : idOf source ≠ "") (target : Space)
    {key : String} (hkey : key ≠ "space") :
    listed key (Commit.successorBody source target) = listed key source := by
  rw [listed, listed, documentOf_successorBody h, get?_relabelledField_of_ne hkey]

namespace Commit

section

variable (hmemory : memory.Orderly) (hclosed : memory.Closed space)
  (hclosed' : memory.Closed target) {policy policy' : List Call}
  {writes' removals' : EntityType → List String}
  (hreached : Reached (fun type => Ledger.writesIn (memory.entities type) space target)
    (fun type => Ledger.removalsIn (memory.entities type) space target) policy writes' removals'
    policy')
  {later : Memory} (hlater : ∀ type, later.entities type =
    (memory.entities type).edited space target (writes' type) (removals' type))

include hmemory hreached hlater

/-- What both spaces have stays in the successor, and so does what the successor has until removals
begin. -/
theorem has_later {type : EntityType} {id : String} (hhas : (memory.entities type).Has target id)
    (hsource : removals' type ≠ [] → (memory.entities type).Has space id) :
    (later.entities type).Has target id := by
  rw [hlater]
  refine Ledger.has_edited_of_has (hmemory.entities type) (hreached.written type)
    (hreached.removed type) hhas fun hid => ?_
  have hthere := hsource (List.ne_nil_of_mem hid)
  have hremoval := (hreached.removed type).subset hid
  rw [Documents.Has,
    Ledger.copyOf?_eq_none_of_mem_removalsIn (hmemory.entities type) hremoval] at hthere
  cases hthere

theorem has_later_of_source {type : EntityType} {id : String}
    (hall : writes' type = Ledger.writesIn (memory.entities type) space target)
    (hhas : (memory.entities type).Has space id) : (later.entities type).Has target id := by
  rw [hlater]
  exact Ledger.has_edited_of_source (hmemory.entities type) (hreached.written type)
    (hreached.removed type) hall hhas

include hclosed hclosed'

/-- The integrations of the successor list what is there. -/
theorem closed_integrations (hfree : memory.CollisionFree) :
    ∀ entry ∈ later.entities .integrations, Scope.belongs target entry.2 = true →
      ∀ type, type ≠ .integrations → ∀ item ∈ Content.listed type.name entry.2,
        ∃ id, item = .text id ∧ (later.entities type).Has target id := by
  intro entry hentry hbelongs type htype item hitem
  have horderly := hmemory.entities .integrations
  rw [hlater] at hentry
  rcases Ledger.edited_cases horderly (hreached.written _) (hreached.removed _) hentry hbelongs with
    ⟨hwritten, hbody⟩ | ⟨hkept, hthere, hold⟩
  · -- a copy that was written lists what its source lists, all of which was written before
    have hall := (hreached.written_before htype).resolve_left (List.ne_nil_of_mem hwritten)
    obtain ⟨source, hsource⟩ := Option.isSome_iff_exists.mp
      (Ledger.has_of_mem_writesIn horderly ((hreached.written _).subset hwritten))
    obtain ⟨hmem, hcopy⟩ := Documents.copyOf?_mem hsource
    have hlisted : Content.listed type.name entry.2 = Content.listed type.name source.2 := by
      rw [hbody, bodyFor, hsource]
      exact Content.listed_successorBody (horderly.identified source hmem) target
        type.name_ne_space
    rw [hlisted] at hitem
    obtain ⟨id, hid, hhas⟩ := hclosed.integrations source hmem
      ((Content.isCopy_iff _ _ _).mp hcopy).1 type htype item hitem
    exact ⟨id, hid, has_later_of_source hmemory hreached hlater hall hhas⟩
  · -- a copy that was there before lists what the successor had, and once anything of that is
    -- removed, it also lists what its source lists
    have htexts := hclosed'.integrations entry hold hbelongs type htype
    obtain ⟨id, hid, hhas⟩ := htexts item hitem
    refine ⟨id, hid, has_later hmemory hreached hlater hhas fun hsome => ?_⟩
    obtain ⟨hwrites, hremovals⟩ := hreached.removed_behind htype hsome
    rw [hwrites] at hkept
    rw [hremovals] at hthere
    obtain ⟨source, hmem, hin, hhash⟩ :=
      Ledger.exists_source_of_not_mem horderly hold hbelongs hkept hthere
    have hcanonical := hfree.canonicalText_eq (.entity .integrations entry hold)
      (.entity .integrations source hmem) hhash
    have hitem' := Content.mem_listed_of_canonical hcanonical type.name_not_mem_volatileKeys
      (fun item hitem => (htexts item hitem).imp fun _ h => h.1) item hitem
    obtain ⟨id', hid', hhas'⟩ := hclosed.integrations source hmem hin type htype item hitem'
    rw [hid] at hid'
    rwa [Json.text.inj hid']

/-- The policy of the successor names what is there. -/
theorem closed_policy (hfree : memory.CollisionFree) {source : PolicyRecord}
    {current promoted : Option PolicyRecord} {time : Instant}
    (hsource : Policies.stored? memory.policies space = .ok (some source))
    (hcurrent : Policies.stored? memory.policies target = .ok current)
    (hpolicies : later.policies = policiesAfter memory.policies target promoted current time)
    (hstage : (promoted = none ∧ ∀ type, removals' type = []) ∨
      (promoted = Ledger.differing (some source) current ∧
        ∀ type, writes' type = Ledger.writesIn (memory.entities type) space target)) :
    ∀ record, Policies.stored? later.policies target = .ok (some record) →
      (∀ id ∈ record.document.integrations, (later.entities .integrations).Has target id) ∧
        (record.document.rootDecoder ≠ "" →
          (later.entities .decoders).Has target record.document.rootDecoder) := by
  intro record hrecord
  obtain ⟨hintegrations, hroot⟩ := hclosed.policy source hsource
  rw [hpolicies] at hrecord
  cases promoted with
  | none =>
    -- the policy is the one that was there, and once anything is removed, it is the same as that
    -- of the space
    have hsame : ∀ type, removals' type ≠ [] →
        record.document.integrations = source.document.integrations ∧
          record.document.rootDecoder = source.document.rootDecoder := by
      intro type hsome
      rcases hstage with ⟨-, hnone⟩ | ⟨hdiffers, -⟩
      · exact absurd (hnone type) hsome
      · cases Except.ok.inj (hcurrent.symm.trans hrecord)
        have hequal := (Ledger.differing_eq_none_iff source _).mp hdiffers.symm
        rw [samePolicy, Option.any_some, beq_iff_eq] at hequal
        exact Content.references_of_canonical
          (hfree.canonicalText_eq (.policy target record hrecord) (.policy space source hsource)
            hequal)
    obtain ⟨hintegrations', hroot'⟩ := hclosed'.policy record hrecord
    constructor
    · intro id hid
      refine has_later hmemory hreached hlater (hintegrations' id hid) fun hsome => ?_
      rw [(hsame _ hsome).1] at hid
      exact hintegrations id hid
    · intro hnonempty
      refine has_later hmemory hreached hlater (hroot' hnonempty) fun hsome => ?_
      rw [(hsame _ hsome).2] at hnonempty ⊢
      exact hroot hnonempty
  | some saved =>
    obtain ⟨hdiffers, hall⟩ := hstage.resolve_left fun h => by cases h.1
    obtain ⟨hsaved, hnot⟩ := Option.filter_eq_some_iff.mp hdiffers.symm
    cases hsaved
    obtain ⟨key, body, hstored⟩ := stored?_promotedPolicies hmemory.policies hsource hcurrent
      (by simpa using hnot) time target
    rw [if_pos rfl] at hstored
    obtain ⟨id, hdocument⟩ := stamped_promotedDocument source.document current time
    cases Except.ok.inj (hstored.symm.trans hrecord)
    rw [hdocument]
    constructor
    · intro id hid
      exact has_later_of_source hmemory hreached hlater (hall _) (hintegrations id hid)
    · exact fun hnonempty => has_later_of_source hmemory hreached hlater (hall _) (hroot hnonempty)

end

/-- At each point of the script that the contents ask for the successor is closed. -/
theorem closed_of_prefix (hmemory : memory.Orderly) (hfree : memory.CollisionFree)
    (hclosed : memory.Closed space) (hclosed' : memory.Closed target) {source : PolicyRecord}
    {current : Option PolicyRecord} {time : Instant}
    (hsource : Policies.stored? memory.policies space = .ok (some source))
    (hcurrent : Policies.stored? memory.policies target = .ok current) {past : List Call}
    (h : past <+: askedScript memory space target (some source) current time) :
    (memory.replay past).Closed target := by
  obtain ⟨writes', removals', policy', hreached, rfl⟩ :=
    prefix_script (length_policyScript_le _ _ _ _) h
  have hstage : ∃ promoted, policy' = policyScript target promoted current time ∧
      ((promoted = none ∧ ∀ type, removals' type = []) ∨
        (promoted = Ledger.differing (some source) current ∧
          ∀ type, writes' type = Ledger.writesIn (memory.entities type) space target)) := by
    -- until its call is made the policy is as if none had been promoted
    rcases hreached.stage with ⟨rfl, hnone⟩ | ⟨rfl, hall⟩
    · exact ⟨none, rfl, .inl ⟨rfl, hnone⟩⟩
    · exact ⟨_, rfl, .inr ⟨rfl, congrFun hall⟩⟩
  obtain ⟨promoted, rfl, hstage⟩ := hstage
  have hlater : ∀ type, (memory.replay (script memory.entities space target writes' removals'
      (policyScript target promoted current time))).entities type =
        (memory.entities type).edited space target (writes' type) (removals' type) := by
    apply entities_replay_script (fun _ => rfl) hmemory.entities
    · intro type
      have hparts := (hreached.written type).sublist.append (hreached.removed type).sublist
      exact hparts.nodup (Ledger.nodup_writesIn_append (hmemory.entities type) space target)
    · intro type id hid
      exact Ledger.has_of_mem_writesIn (hmemory.entities type) ((hreached.written type).subset hid)
    · exact fun call => index_of_mem_policyScript
  exact ⟨closed_integrations hmemory hclosed hclosed' hreached hlater hfree,
    closed_policy hmemory hclosed hclosed' hreached hlater hfree hsource hcurrent
      (policies_replay_script ..) hstage⟩

end Commit

/-! ### Promotions -/

/-- Each single write of a promotion of what was shown leaves the successor closed, also where a
failing call halts it. -/
theorem promote_keeps_closed (h : deployment.Standard)
    (hledger : deployment.settings.changeLedger = .contentHash)
    (hfixed : deployment.fixedChanges = none) (hworld : world.Standing)
    (hmemory : world.memory.Orderly) (hfree : world.memory.CollisionFree)
    (htarget : space.target? = some target) (hclosed : world.memory.Closed space)
    (hpolicy : ∃ entry ∈ world.memory.policies, Scope.belongs space entry.2 = true)
    (hclosed' : world.memory.Closed target) :
    ∃ outcome later, ∃ (done : List Call) (failed : Option Call),
      (Preview.changesOf space >>= Commit.promote space).runOn deployment world =
        (outcome, later) ∧
      later.written = world.written ++ done ++ failed.toList ∧
      later.memory = world.memory.replay done ∧
      ∀ past, past <+: done → (world.memory.replay past).Closed target := by
  have hexists : (world.memory.policies.policyOf? space).isSome = true := by
    rw [Documents.policyOf?, List.find?_isSome]
    exact hpolicy
  obtain ⟨script, outcome, hperforms, hscript⟩ :=
    Commit.performs_preview_promote h hworld hledger hfixed hmemory htarget hexists
  have hpoints : ∀ past, past <+: script → (world.memory.replay past).Closed target := by
    intro past hpast
    rcases hscript with rfl | ⟨source, current, time, hsource, hcurrent, rfl⟩
    · rw [List.prefix_nil.mp hpast]
      exact hclosed'
    · exact Commit.closed_of_prefix hmemory hfree hclosed hclosed' hsource hcurrent hpast
  cases hperforms with
  | completed later run after =>
    exact ⟨_, later, script, none, run, after.written, after.memory, hpoints⟩
  | halted fault done failed later failing run within after =>
    refine ⟨_, later, done, failed, run, after.written, after.memory, fun past hpast => ?_⟩
    exact hpoints past (hpast.trans ((List.prefix_append done _).trans within))

/-- The policy of the store with one integration, as it is read. -/
def linkedPolicy : PolicyRecord :=
  { docId := "c"
    space := .draft
    document := { id := "z", rootDecoder := "x", integrations := ["y"] }
    source := draftBody [("id", .text "z"), ("root_decoder", .text "x"),
      ("integrations", Json.texts ["y"])] }

theorem stored?_linkedDraft (space : Space) :
    Policies.stored? linkedDraft.memory.policies space =
      .ok (if space = .draft then some linkedPolicy else none) := by
  cases space <;> rfl

/-- The contents of the store that are hashed, with their keys in order. -/
def linkedContents : List (Table Json) :=
  [[("id", .text "x")],
   [("decoders", Json.texts ["x"]), ("id", .text "y")],
   [("author", .text ""), ("description", .text ""), ("documentation", .text ""),
    ("integrations", Json.texts ["y"]), ("references", Json.texts []), ("root_decoder", .text "x"),
    ("title", .text "")]]

def linkedMessages : List (List UInt8) :=
  linkedContents.map fun fields => Content.asciiOctets (Json.sortedText fields)

theorem linkedDraft_collisionFree : linkedDraft.memory.CollisionFree := by
  have hmessage : ∀ (document sorted : Table Json) (excluded : List String),
      sorted ∈ linkedContents → sorted.Perm (Content.substance document excluded) →
        Content.asciiOctets (Content.canonicalText document excluded) ∈ linkedMessages := by
    intro document sorted excluded hsorted hperm
    have horder : ∀ sorted ∈ linkedContents, Table.Distinct sorted ∧
        sorted.keys.Pairwise (· ≤ ·) := by
      decide +kernel
    obtain ⟨hdistinct, hkeys⟩ := horder sorted hsorted
    rw [Content.canonicalText, Json.canonical_object_of_perm hperm hdistinct hkeys]
    exact List.mem_map_of_mem hsorted
  -- the fields of each document are given in order, for `List.mergeSort` does not evaluate here
  have hmessages : ∀ message, linkedDraft.memory.Hashed message → message ∈ linkedMessages := by
    intro message hhashed
    cases hhashed with
    | entity type entry hentry =>
      cases type with
      | decoders =>
        rw [List.mem_singleton.mp hentry]
        exact hmessage _ [("id", .text "x")] _ (by decide) (by decide +kernel)
      | integrations =>
        rw [List.mem_singleton.mp hentry]
        exact hmessage _ [("decoders", Json.texts ["x"]), ("id", .text "y")] _ (by decide)
          (by decide +kernel)
      | _ => exact absurd hentry List.not_mem_nil
    | policy space record hstored =>
      rw [stored?_linkedDraft] at hstored
      by_cases hspace : space = .draft
      · rw [if_pos hspace] at hstored
        rw [← Option.some.inj (Except.ok.inj hstored)]
        exact hmessage _ [("author", .text ""), ("description", .text ""),
          ("documentation", .text ""), ("integrations", Json.texts ["y"]),
          ("references", Json.texts []), ("root_decoder", .text "x"), ("title", .text "")] _
          (by decide) (by decide +kernel)
      · rw [if_neg hspace] at hstored
        cases Except.ok.inj hstored
  have hdiffer : ∀ a ∈ linkedMessages, ∀ b ∈ linkedMessages,
      Sha256.hexDigest a = Sha256.hexDigest b → a = b := by
    decide +kernel
  intro a b ha hb hdigest
  exact hdiffer a (hmessages a ha) b (hmessages b hb) hdigest

theorem linkedDraft_closed (space : Space) : linkedDraft.memory.Closed space := by
  constructor
  · intro entry hentry hbelongs type htype item hitem
    rw [List.mem_singleton.mp hentry] at hbelongs hitem
    have hdraft : space = .draft := by
      cases space with
      | draft => rfl
      | _ => exact absurd hbelongs (by decide)
    subst hdraft
    cases type with
    | integrations => exact absurd rfl htype
    | decoders =>
      have hid : item = .text "x" := List.mem_singleton.mp hitem
      exact ⟨"x", hid, by decide⟩
    | _ => exact absurd hitem (by decide +revert)
  · intro record hrecord
    rw [stored?_linkedDraft] at hrecord
    by_cases hspace : space = .draft
    · subst hspace
      rw [if_pos rfl] at hrecord
      cases Option.some.inj (Except.ok.inj hrecord)
      decide
    · rw [if_neg hspace] at hrecord
      cases Except.ok.inj hrecord

/-- The promotion of the store leaves `test` closed after each single write. -/
theorem promote_keeps_closed_linkedDraft :
    ∃ outcome later, ∃ (done : List Call) (failed : Option Call),
      (Preview.changesOf .draft >>= Commit.promote .draft).runOn {} linkedDraft =
        (outcome, later) ∧
      later.written = linkedDraft.written ++ done ++ failed.toList ∧
      later.memory = linkedDraft.memory.replay done ∧
      ∀ past, past <+: done → (linkedDraft.memory.replay past).Closed .test :=
  promote_keeps_closed ⟨rfl, rfl, rfl, by decide⟩ rfl rfl linkedDraft_standing
    linkedDraft_wellFormed.orderly linkedDraft_collisionFree (by decide)
    (linkedDraft_closed .draft) (by decide) (linkedDraft_closed .test)

end Lifecycle
