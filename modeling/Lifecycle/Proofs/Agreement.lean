import Lifecycle.Proofs.Courses

/-!
# Runs on two worlds

Two runs *agree* when they have the same outcome and end in worlds that a relation holds of
(`Work.Agrees`). Worlds are *alike* as far as their contents are when the network answers the same
and calls are made to fail alike (`World.Alike`); clocks, logs and the space fields that are kept
may differ, and so one of two runs may probe an index that the other one does not. What a probe
takes from the failure rules is only about probes (`FailureRule.lasting_applyAll_probe`), and the
queries of both runs find what the contents tell, whichever fields were probed
(`Resolver.agrees_found`). So scans agree that find the same documents (`Store.agrees_scan`), and
writes agree that keep the contents related (`Store.agrees_write`).
-/

namespace Lifecycle

variable {α β : Type} {deployment : Deployment}

/-! ### Pairs of runs -/

namespace Work

/-- A run on one world and a run on another one have the same outcome, and end in worlds that a
relation holds of. -/
structure Agrees (deployment : Deployment) (after : World → World → Prop) (work : Work α)
    (world : World) (twin : Work α) (other : World) : Prop where
  outcome : (work.runOn deployment world).1 = (twin.runOn deployment other).1
  after : after (work.runOn deployment world).2 (twin.runOn deployment other).2

variable {after middle : World → World → Prop} {world other : World}

theorem agrees_pure (value : α) (h : after world other) :
    Agrees deployment after (pure value) world (pure value) other :=
  ⟨rfl, h⟩

theorem agrees_throw (fault : Fault) (h : after world other) :
    Agrees deployment after (throw fault : Work α) world (throw fault) other :=
  ⟨rfl, h⟩

theorem agrees_ofExcept (result : Except Fault α) (h : after world other) :
    Agrees deployment after (ofExcept result) world (ofExcept result) other := by
  refine ⟨?_, ?_⟩
  · rw [runOn_ofExcept, runOn_ofExcept]
  · rw [runOn_ofExcept, runOn_ofExcept]
    exact h

/-- Runs in sequence agree, if those behind agree on the value that the first ones have. -/
theorem Agrees.bind_of {work twin : Work α} {next following : α → Work β}
    (h : Agrees deployment middle work world twin other)
    (hfault : ∀ a b, middle a b → after a b)
    (hnext : ∀ value later last, work.runOn deployment world = (.ok value, later) →
      twin.runOn deployment other = (.ok value, last) → middle later last →
        Agrees deployment after (next value) later (following value) last) :
    Agrees deployment after (work >>= next) world (twin >>= following) other := by
  obtain ⟨houtcome, hmiddle⟩ := h
  rcases hrun : work.runOn deployment world with ⟨result, later⟩
  rcases htwin : twin.runOn deployment other with ⟨result', last⟩
  rw [hrun, htwin] at houtcome hmiddle
  cases houtcome
  cases result with
  | error fault =>
    refine ⟨?_, ?_⟩
    · rw [runOn_bind, runOn_bind, hrun, htwin]
    · rw [runOn_bind, runOn_bind, hrun, htwin]
      exact hfault _ _ hmiddle
  | ok value =>
    obtain ⟨houtcome, hafter⟩ := hnext value later last hrun htwin hmiddle
    refine ⟨?_, ?_⟩
    · rw [runOn_bind, runOn_bind, hrun, htwin]
      exact houtcome
    · rw [runOn_bind, runOn_bind, hrun, htwin]
      exact hafter

theorem Agrees.bind {work twin : Work α} {next following : α → Work β}
    (h : Agrees deployment after work world twin other)
    (hnext : ∀ value later last, after later last →
      Agrees deployment after (next value) later (following value) last) :
    Agrees deployment after (work >>= next) world (twin >>= following) other :=
  h.bind_of (fun _ _ => id) fun value later last _ _ => hnext value later last

theorem agrees_settings_bind {next following : ContentSettings → Work α}
    (h : Agrees deployment after (next deployment.settings) world
      (following deployment.settings) other) :
    Agrees deployment after (settings >>= next) world (settings >>= following) other := by
  refine ⟨?_, ?_⟩
  · rw [runOn_settings_bind, runOn_settings_bind, h.outcome]
  · rw [runOn_settings_bind, runOn_settings_bind]
    exact h.after

theorem agrees_get_bind {next following : World → Work α}
    (h : Agrees deployment after (next world) world (following other) other) :
    Agrees deployment after (get >>= next) world (get >>= following) other := by
  refine ⟨?_, ?_⟩
  · rw [runOn_bind, runOn_get, runOn_bind, runOn_get, h.outcome]
  · rw [runOn_bind, runOn_get, runOn_bind, runOn_get]
    exact h.after

theorem agrees_read_bind {next following : Deployment → Work α}
    (h : Agrees deployment after (next deployment) world (following deployment) other) :
    Agrees deployment after (read >>= next) world (read >>= following) other := by
  refine ⟨?_, ?_⟩
  · rw [runOn_bind, runOn_read, runOn_bind, runOn_read, h.outcome]
  · rw [runOn_bind, runOn_read, runOn_bind, runOn_read]
    exact h.after

/-- A step renames the faults of both runs. -/
theorem Agrees.step {work twin : Work α} (h : Agrees deployment after work world twin other)
    (name : String) :
    Agrees deployment after (Commit.step name work) world (Commit.step name twin) other := by
  refine ⟨?_, ?_⟩
  · rw [Commit.runOn_step, Commit.runOn_step, h.outcome]
  · rw [Commit.runOn_step, Commit.runOn_step]
    exact h.after

end Work

/-! ### Failure rules -/

namespace FailureRule

/-- The rules that are not about probes. -/
def lasting (rules : List FailureRule) : List FailureRule :=
  rules.filter fun rule => rule.method != .fieldCapabilities

theorem lasting_cons_of_probe {rule : FailureRule} (h : rule.method = .fieldCapabilities)
    (rest : List FailureRule) : lasting (rule :: rest) = lasting rest := by
  rw [lasting, List.filter_cons_of_neg (by simp [h]), lasting]

theorem lasting_cons_of_ne {rule : FailureRule} (h : rule.method ≠ .fieldCapabilities)
    (rest : List FailureRule) : lasting (rule :: rest) = rule :: lasting rest := by
  rw [lasting, List.filter_cons_of_pos (by simp [h]), lasting]

/-- A rule that a call does not concern lets it pass. -/
theorem applyAll_cons {call : Call} {rule : FailureRule} (h : rule.concerns call = false)
    (rest : List FailureRule) :
    applyAll call (rule :: rest) = (rule :: (applyAll call rest).1, (applyAll call rest).2) := by
  rw [applyAll, h]
  rfl

theorem concerns_of_ne {call : Call} {rule : FailureRule} (h : rule.method ≠ call.method) :
    rule.concerns call = false := by
  rw [concerns, beq_eq_false_iff_ne.mpr h, Bool.false_and]

/-- A call is seen by its kind and its index. -/
theorem applyAll_congr {call twin : Call} (hmethod : call.method = twin.method)
    (hindex : call.index = twin.index) (rules : List FailureRule) :
    applyAll call rules = applyAll twin rules := by
  have hconcerns : ∀ rule : FailureRule, rule.concerns call = rule.concerns twin := by
    intro rule
    rw [concerns, concerns, hmethod, hindex]
  induction rules with
  | nil => rfl
  | cons rule rest ih => rw [applyAll, applyAll, hconcerns, ih]

/-- A call that is no probe is seen by the rules alone that are not about probes. -/
theorem lasting_applyAll {call : Call} (h : call.method ≠ .fieldCapabilities)
    (rules : List FailureRule) :
    (lasting (applyAll call rules).1, (applyAll call rules).2) = applyAll call (lasting rules) := by
  induction rules with
  | nil => rfl
  | cons rule rest ih =>
    -- a rule about probes passes over the call, and any other one is in both lists
    by_cases hprobe : rule.method = .fieldCapabilities
    · have hother : rule.concerns call = false := concerns_of_ne (hprobe ▸ h.symm)
      rw [applyAll_cons hother, lasting_cons_of_probe hprobe, lasting_cons_of_probe hprobe, ih]
    · rw [lasting_cons_of_ne hprobe, applyAll, applyAll]
      split
      · dsimp only
        rw [lasting_cons_of_ne (by exact hprobe)]
      · rw [← ih]
        dsimp only
        rw [lasting_cons_of_ne (by split <;> exact hprobe)]

/-- A probe is seen by rules alone that are about probes. -/
theorem lasting_applyAll_probe {call : Call} (h : call.method = .fieldCapabilities)
    (rules : List FailureRule) : lasting (applyAll call rules).1 = lasting rules := by
  induction rules with
  | nil => rfl
  | cons rule rest ih =>
    by_cases hprobe : rule.method = .fieldCapabilities
    · rw [lasting_cons_of_probe hprobe, applyAll]
      split
      · exact lasting_cons_of_probe (by exact hprobe) rest
      · dsimp only
        rw [lasting_cons_of_probe (by split <;> exact hprobe), ih]
    · have hother : rule.concerns call = false := concerns_of_ne (h ▸ hprobe)
      rw [applyAll_cons hother, lasting_cons_of_ne hprobe, lasting_cons_of_ne hprobe, ih]

end FailureRule

/-! ### Plain contents -/

/-- Contents whose indexes have the default mapping, as far as they are there. -/
def Memory.Plain (memory : Memory) : Prop :=
  ∀ index ∈ contentIndexes, memory.mappings.get? index = some Memory.defaultMapping ∨
    memory.mappings.get? index = none ∧ memory.documents index = []

namespace Memory

variable {memory : Memory} {index : String} {fields : List String} {entry : Query.Entry}

theorem Mapped.plain (h : memory.Mapped) : memory.Plain := fun index hindex => .inl (h index hindex)

/-- A write makes an index that is not there with the default mapping. -/
theorem Plain.apply (h : memory.Plain) (call : Call) : (memory.apply call).Plain := by
  intro index hindex
  rcases h index hindex with hdefault | ⟨hnone, hdocs⟩
  · exact .inl (get?_mappings_apply hdefault call)
  cases call with
  | upsert other id body =>
    have hmissing : ¬memory.mappings.has index = true := by simp [Table.has, hnone]
    by_cases hsame : other = index
    · subst hsame
      refine .inl ?_
      rw [Memory.apply, Memory.put, ensureIndex, if_neg hmissing]
      exact (Table.get?_put ..).trans (if_pos rfl)
    · have hkept : (memory.apply (.upsert other id body)).documents index =
          memory.documents index := documents_apply_of_ne hsame
      refine .inr ⟨?_, by rw [hkept, hdocs]⟩
      rw [Memory.apply, Memory.put, ensureIndex]
      split
      · exact hnone
      · exact (Table.get?_put ..).trans ((if_neg hsame).trans hnone)
  | delete other id =>
    refine .inr ⟨?_, ?_⟩
    · rw [Memory.apply, Memory.delete]
      split <;> exact hnone
    · by_cases hsame : other = index
      · subst hsame
        rw [Memory.apply, documents_delete, hdocs]
        rfl
      · have hkept : (memory.apply (.delete other id)).documents index =
            memory.documents index := documents_apply_of_ne hsame
        rw [hkept, hdocs]
  | search _ _ => exact .inr ⟨hnone, hdocs⟩
  | byIds _ _ => exact .inr ⟨hnone, hdocs⟩
  | fieldCapabilities _ _ => exact .inr ⟨hnone, hdocs⟩

/-- The documents that name a space are those that belong to it. -/
theorem Plain.carries_eq (h : memory.Plain) (hindex : index ∈ contentIndexes)
    (hentry : entry ∈ memory.documents index) (space : Space) :
    memory.carries index space entry.2 = Scope.belongs space entry.2 := by
  rcases h index hindex with hdefault | ⟨-, hdocs⟩
  · exact Memory.carries_eq (by rw [Memory.mapping, hdefault, Option.getD_some]) space entry.2
  · rw [hdocs] at hentry
    exact absurd hentry List.not_mem_nil

theorem Plain.asked_eq (h : memory.Plain) (hindex : index ∈ contentIndexes)
    (hentry : entry ∈ memory.documents index) (space : Space) (ids : List String) :
    memory.asked index space ids entry.2 =
      (Scope.belongs space entry.2 && Scope.hasIdAmong ids entry.2) := by
  rcases h index hindex with hdefault | ⟨-, hdocs⟩
  · exact Memory.asked_eq (by rw [Memory.mapping, hdefault, Option.getD_some]) space ids entry.2
  · rw [hdocs] at hentry
    exact absurd hentry List.not_mem_nil

/-- A search for everything in a space finds the documents that belong to it. -/
theorem Plain.found_inSpace (h : memory.Plain) (hindex : index ∈ contentIndexes)
    (hfields : Scope.Probed (memory.mappings.get? index) fields) (space : Space) :
    memory.found index (Scope.inSpace space fields) =
      .ok ((memory.documents index).filter fun entry => Scope.belongs space entry.2) := by
  rw [Memory.found_inSpace hfields]
  exact congrArg Except.ok (List.filter_congr fun _ hentry => h.carries_eq hindex hentry space)

/-- A search for ids in a space finds the documents that belong to it and have one of the ids. -/
theorem Plain.found_withIds (h : memory.Plain) (hindex : index ∈ contentIndexes)
    (hfields : Scope.Probed (memory.mappings.get? index) fields) (space : Space)
    (ids : List String) :
    memory.found index (Scope.withIds space ids fields) =
      .ok ((memory.documents index).filter fun entry =>
        Scope.belongs space entry.2 && Scope.hasIdAmong ids entry.2) := by
  rw [Memory.found_withIds hfields]
  exact congrArg Except.ok (List.filter_congr fun _ hentry => h.asked_eq hindex hentry space ids)

end Memory

/-! ### Alike worlds -/

/-- A world to start from: the indexes that are there have the default mapping, and what is kept
about their space fields stems from probes. -/
structure World.Settled (world : World) : Prop where
  plain : world.memory.Plain
  probed : world.Probed

theorem World.Standing.settled {world : World} (h : world.Standing) : world.Settled :=
  ⟨h.mapped.plain, h.probed⟩

/-- A world that differs from an earlier one in nothing that work depends on: the contents and what
the network answers are the same, and calls but probes are made to fail as before. -/
structure World.Unmoved (world later : World) : Prop where
  memory : later.memory = world.memory
  replies : later.replies = world.replies
  rules : FailureRule.lasting later.rules = FailureRule.lasting world.rules
  probed : world.Probed → later.Probed

/-- Two worlds to start from whose contents are related, where the network answers the same and
calls but probes are made to fail alike. -/
structure World.Alike (same : Memory → Memory → Prop) (world other : World) : Prop where
  settled : world.Settled
  settled_other : other.Settled
  memory : same world.memory other.memory
  replies : world.replies = other.replies
  rules : FailureRule.lasting world.rules = FailureRule.lasting other.rules

namespace World

variable {same : Memory → Memory → Prop} {world other : World}

theorem Settled.unmoved (h : world.Settled) {later : World} (hlater : world.Unmoved later) :
    later.Settled :=
  ⟨by rw [hlater.memory]; exact h.plain, hlater.probed h.probed⟩

theorem Alike.unmoved (h : world.Alike same other) {later last : World}
    (hlater : world.Unmoved later) (hlast : other.Unmoved last) : later.Alike same last where
  settled := h.settled.unmoved hlater
  settled_other := h.settled_other.unmoved hlast
  memory := by
    rw [hlater.memory, hlast.memory]
    exact h.memory
  replies := by rw [hlater.replies, hlast.replies, h.replies]
  rules := by rw [hlater.rules, hlast.rules, h.rules]

theorem Alike.mono (h : world.Alike same other) {weaker : Memory → Memory → Prop}
    (hsame : ∀ a b, same a b → weaker a b) : world.Alike weaker other :=
  { h with memory := hsame _ _ h.memory }

/-- Calls of the same kind about the same index, but probes, fail alike, and leave alike worlds. -/
theorem Alike.called (h : world.Alike same other) {call twin : Call}
    (hmethod : call.method = twin.method) (hindex : call.index = twin.index)
    (hprobe : call.method ≠ .fieldCapabilities) :
    (FailureRule.applyAll call world.rules).2 = (FailureRule.applyAll twin other.rules).2 ∧
      (world.called deployment call).Alike same (other.called deployment twin) := by
  have hprobe' : twin.method ≠ .fieldCapabilities := hmethod ▸ hprobe
  -- both calls are seen by the same rules, those that are not about probes
  have happly := FailureRule.lasting_applyAll hprobe world.rules
  rw [h.rules, FailureRule.applyAll_congr hmethod hindex (FailureRule.lasting other.rules),
    ← FailureRule.lasting_applyAll hprobe'] at happly
  obtain ⟨hrules, hfault⟩ := Prod.mk.inj happly
  exact ⟨hfault, ⟨h.settled.plain, h.settled.probed⟩,
    ⟨h.settled_other.plain, h.settled_other.probed⟩, h.memory, h.replies, hrules⟩

end World

/-! ### Store operations -/

namespace Store

variable {same : Memory → Memory → Prop} {world other : World}

theorem runOn_search (hbackend : deployment.backend = .memory) (index : String)
    (asked : Search) :
    (search index asked).runOn deployment world =
      (match (FailureRule.applyAll (.search index asked) world.rules).2 with
        | some fault => .error fault
        | none => world.memory.search index asked,
       world.called deployment (.search index asked)) := by
  rw [search, Work.runOn_bind, Work.runOn_read]
  dsimp only
  rw [hbackend]
  dsimp only
  rw [Work.runOn_bind, Work.runOn_call]
  cases (FailureRule.applyAll (.search index asked) world.rules).2 with
  | some fault => rfl
  | none =>
    dsimp only
    rw [Work.runOn_bind, Work.runOn_get]
    exact Work.runOn_ofExcept _

/-- Searches agree for which both contents have the same page. -/
theorem agrees_search (hbackend : deployment.backend = .memory) (h : world.Alike same other)
    {index : String} {asked twin : Search}
    (hpage : world.memory.search index asked = other.memory.search index twin) :
    Work.Agrees deployment (World.Alike same) (search index asked) world (search index twin)
      other := by
  obtain ⟨hfault, hcalled⟩ : _ ∧ (world.called deployment (.search index asked)).Alike same
      (other.called deployment (.search index twin)) := h.called rfl rfl (by simp [Call.method])
  refine ⟨?_, ?_⟩
  · rw [runOn_search hbackend, runOn_search hbackend, hfault, hpage]
  · rw [runOn_search hbackend, runOn_search hbackend]
    exact hcalled

/-- A search that has a page has the one of the contents, and leaves them. -/
theorem search_ok (hbackend : deployment.backend = .memory) {index : String} {asked : Search}
    {page found : Page} (hpage : world.memory.search index asked = .ok page) {later : World}
    (hrun : (search index asked).runOn deployment world = (.ok found, later)) :
    found = page ∧ later.memory = world.memory := by
  have hsearch : (search index asked).Performs deployment world [] _ :=
    performs_search hbackend index asked
  obtain ⟨hfound, hafter⟩ := hsearch.of_ok hrun
  exact ⟨Except.ok.inj (hfound.symm.trans hpage), hafter.memory_eq⟩

/-- From an offset on, scans agree that find the same documents. -/
theorem agrees_scanPages (hbackend : deployment.backend = .memory) {index : String}
    {scanned : Scan} {query : Json} {entries : List Query.Entry} {view : Table Json → Table Json}
    (hview : ∀ body, Query.projected scanned.source body = .ok (view body))
    (hsize : 0 < scanned.pageSize) (step : β → Hit → Except Fault β) (fuel fuel' offset : Nat)
    (hoffset : offset ≤ entries.length) (hfuel : entries.length < fuel + offset)
    (hfuel' : entries.length < fuel' + offset) (result : β) (h : world.Alike same other)
    (hfound : world.memory.found index scanned.query = .ok entries)
    (hfound' : other.memory.found index query = .ok entries) :
    Work.Agrees deployment (World.Alike same)
      (scanPages index scanned step fuel offset result) world
      (scanPages index { scanned with query } step fuel' offset result) other := by
  -- both scans go through the same pages, and neither is cut short by the bound of their number
  induction fuel generalizing fuel' offset result world other with
  | zero => omega
  | succ fuel ih =>
    obtain ⟨more, rfl⟩ : ∃ more, fuel' = more + 1 := ⟨fuel' - 1, by omega⟩
    set twin : Scan := { scanned with query } with htwin
    set page := ((entries.map (toHit view)).drop offset).take scanned.pageSize.toNat with hpage
    have hsearch : world.memory.search index (scanned.pageFrom offset) =
        .ok ⟨entries.length, page⟩ :=
      search_pageFrom hfound hview (Int.le_of_lt hsize) offset
    have hview' : ∀ body, Query.projected twin.source body = .ok (view body) := hview
    have hsearch' : other.memory.search index (twin.pageFrom offset) =
        .ok ⟨entries.length, page⟩ :=
      search_pageFrom hfound' hview' (Int.le_of_lt hsize) offset
    rw [scanPages, scanPages]
    refine (agrees_search hbackend h (hsearch.trans hsearch'.symm)).bind_of (fun _ _ => id) ?_
    intro found later last hrun hrun' hlater
    obtain ⟨rfl, hmemory⟩ := search_ok hbackend hsearch hrun
    obtain ⟨-, hmemory'⟩ := search_ok hbackend hsearch' hrun'
    refine (Work.agrees_ofExcept _ hlater).bind_of (fun _ _ => id) ?_
    intro next behind behind' hread hread' hbehind
    obtain ⟨-, rfl⟩ := Prod.mk.inj ((Work.runOn_ofExcept _).symm.trans hread)
    obtain ⟨-, rfl⟩ := Prod.mk.inj ((Work.runOn_ofExcept _).symm.trans hread')
    dsimp only
    split
    · exact Work.agrees_pure next hbehind
    · rename_i hmore
      have hnonempty : page ≠ [] := by
        intro hnil
        simp [hnil] at hmore
      have hpositive := List.length_pos_iff.mpr hnonempty
      have hless : ¬((offset + page.length : Nat) : Int) ≥ (entries.length : Int) := by
        intro hend
        simp only [hend, decide_true, Bool.or_true, not_true] at hmore
      exact ih _ _ (by omega) (by omega) (by omega) next hbehind (by rw [hmemory]; exact hfound)
        (by rw [hmemory']; exact hfound')

/-- Scans agree that find the same documents. -/
theorem agrees_scan (hbackend : deployment.backend = .memory) {index : String} {scanned : Scan}
    {query : Json} {test : Query.Entry → Bool} {view : Table Json → Table Json}
    (hview : ∀ body, Query.projected scanned.source body = .ok (view body))
    (hsize : 0 < scanned.pageSize) (start : β) (step : β → Hit → Except Fault β)
    (h : world.Alike same other)
    (hfound : world.memory.found index scanned.query =
      .ok ((world.memory.documents index).filter test))
    (hfound' : other.memory.found index query =
      .ok ((other.memory.documents index).filter test))
    (hsame : (world.memory.documents index).filter test =
      (other.memory.documents index).filter test) :
    Work.Agrees deployment (World.Alike same) (scan index scanned start step) world
      (scan index { scanned with query } start step) other := by
  -- each bound is that of its own index, and no less than what is found
  have hlength := List.length_filter_le test (world.memory.documents index)
  have hlength' := List.length_filter_le test (other.memory.documents index)
  rw [hsame] at hfound hlength
  rw [scan, scan]
  apply Work.agrees_get_bind
  exact agrees_scanPages hbackend hview hsize step (pageBound world index) (pageBound other index)
    0 (Nat.zero_le _) (by rw [pageBound]; omega) (by rw [pageBound]; omega) start h hfound hfound'

/-! ### Writes -/

/-- Writes of the same kind to the same index agree that take related contents to related ones. -/
theorem agrees_write {call twin : Call} {later : Memory → Memory → Prop}
    (hmethod : call.method = twin.method) (hindex : call.index = twin.index)
    (hwrites : call.method.writes = true) (h : world.Alike same other)
    (hfault : ∀ a b, same a b → later a b)
    (hlater : later (world.memory.apply call) (other.memory.apply twin)) :
    Work.Agrees deployment (World.Alike later)
      (do
        Work.call call
        modify fun world => { world with memory := world.memory.apply call }) world
      (do
        Work.call twin
        modify fun world => { world with memory := world.memory.apply twin }) other := by
  have hprobe : call.method ≠ .fieldCapabilities := by
    intro hcall
    rw [hcall] at hwrites
    cases hwrites
  obtain ⟨hsame, hcalled⟩ : _ ∧ (world.called deployment call).Alike same
      (other.called deployment twin) := h.called hmethod hindex hprobe
  -- the call is made to fail in both runs, and then nothing is written, or in none
  cases hraised : (FailureRule.applyAll twin other.rules).2 with
  | some fault =>
    refine ⟨?_, ?_⟩
    · rw [Work.runOn_bind, Work.runOn_bind, Work.runOn_call, Work.runOn_call, hsame, hraised]
    · rw [Work.runOn_bind, Work.runOn_bind, Work.runOn_call, Work.runOn_call, hsame, hraised]
      exact hcalled.mono hfault
  | none =>
    refine ⟨?_, ?_⟩
    · rw [Work.runOn_bind, Work.runOn_bind, Work.runOn_call, Work.runOn_call, hsame, hraised]
      rfl
    · rw [Work.runOn_bind, Work.runOn_bind, Work.runOn_call, Work.runOn_call, hsame, hraised]
      exact ⟨⟨h.settled.plain.apply call, h.settled.probed.after_write rfl rfl⟩,
        ⟨h.settled_other.plain.apply twin, h.settled_other.probed.after_write rfl rfl⟩, hlater,
        hcalled.replies, hcalled.rules⟩

theorem agrees_upsert (hbackend : deployment.backend = .memory)
    {later : Memory → Memory → Prop} (h : world.Alike same other)
    (hfault : ∀ a b, same a b → later a b) (index id : String) {body twin : Table Json}
    (hlater : later (world.memory.apply (.upsert index id body))
      (other.memory.apply (.upsert index id twin))) :
    Work.Agrees deployment (World.Alike later) (upsert index id body) world
      (upsert index id twin) other := by
  rw [upsert, upsert]
  apply Work.agrees_read_bind
  rw [hbackend]
  exact agrees_write rfl rfl rfl h hfault hlater

theorem agrees_delete (hbackend : deployment.backend = .memory)
    {later : Memory → Memory → Prop} (h : world.Alike same other)
    (hfault : ∀ a b, same a b → later a b) (index id : String)
    (hlater : later (world.memory.apply (.delete index id))
      (other.memory.apply (.delete index id))) :
    Work.Agrees deployment (World.Alike later) (delete index id) world (delete index id) other := by
  rw [delete]
  apply Work.agrees_read_bind
  rw [hbackend]
  exact agrees_write rfl rfl rfl h hfault hlater

end Store

/-! ### Space fields -/

namespace Resolver

variable {world other : World}

theorem runOn_fieldCapabilities (h : deployment.Standard) (index : String)
    (fields : List String) :
    ((Store.fieldCapabilities index fields).runOn deployment world).2 =
      world.called deployment (.fieldCapabilities index fields) := by
  rw [Store.fieldCapabilities, Work.runOn_bind, Work.runOn_read]
  dsimp only
  rw [h.backend]
  dsimp only
  rw [Work.runOn_bind, Work.runOn_call]
  cases (FailureRule.applyAll (.fieldCapabilities index fields) world.rules).2 with
  | some fault => rfl
  | none =>
    rw [h.capabilities]
    dsimp only [Table.get?_nil]
    rw [Work.runOn_bind, Work.runOn_get]
    dsimp only
    rw [Work.runOn_ofExcept]

/-- A probe keeps what it finds, and moves nothing else. -/
theorem unmoved_probe (h : deployment.Standard) {index : String} {fields : SpaceFields}
    {later : World} (hrun : (probe index).runOn deployment world = (.ok fields, later)) :
    later.memory = world.memory ∧ later.replies = world.replies ∧
      FailureRule.lasting later.rules = FailureRule.lasting world.rules := by
  rw [probe, Work.runOn_settings_bind, Work.runOn_bind, Work.runOn_attempt,
    runOn_fieldCapabilities h] at hrun
  obtain ⟨-, rfl⟩ := Prod.mk.inj hrun
  exact ⟨rfl, rfl, FailureRule.lasting_applyAll_probe rfl world.rules⟩

/-- The space fields of an index are known or found by a probe. Either way they stem from its
mapping, and the world is not moved. -/
theorem runOn_resolve (h : deployment.Standard) (hworld : world.Probed) {index : String}
    (hindex : index ∈ contentIndexes) :
    ∃ fields later, (resolve index).runOn deployment world = (.ok fields, later) ∧
      Scope.Probed (world.memory.mappings.get? index) fields.search ∧ world.Unmoved later := by
  cases hkept : world.spaceFields.get? index with
  | some fields =>
    -- what is kept stems from a probe before
    exact ⟨fields, world, runOn_resolve_of_kept hkept, hworld index hindex fields hkept, rfl, rfl,
      rfl, id⟩
  | none =>
    obtain ⟨fields, later, hfields, hrun, hafter⟩ := runOn_probe world h index
    obtain ⟨hmemory, hreplies, hrules⟩ := unmoved_probe h hrun
    exact ⟨fields, later, (runOn_resolve_of_none hkept).trans hrun, hfields, hmemory, hreplies,
      hrules, hafter.probed⟩

/-- A query is scoped by fields that stem from the mapping, and the world is not moved. -/
theorem runOn_within (h : deployment.Standard) (hworld : world.Probed) {index : String}
    (hindex : index ∈ contentIndexes) (space : Space) {query : Json}
    {narrowed : List String → Json}
    (happly : ∀ fields, Scope.apply query (some space.name) fields = .ok (narrowed fields)) :
    ∃ fields later, (within index space query).runOn deployment world =
        (.ok (narrowed fields), later) ∧
      Scope.Probed (world.memory.mappings.get? index) fields ∧ world.Unmoved later := by
  obtain ⟨fields, later, hrun, hprobed, hunmoved⟩ := runOn_resolve h hworld hindex
  have hname : space.name ≠ "" := by cases space <;> decide
  refine ⟨fields.search, later, ?_, hprobed, hunmoved⟩
  rw [within, scopedQuery]
  · rw [Work.runOn_bind, hrun]
    dsimp only
    rw [happly, Work.runOn_ofExcept]
  · exact hname

/-- Runs behind the scoping of a query agree, if they agree on queries that are scoped by fields
that were probed. -/
theorem agrees_within (h : deployment.Standard) {same : Memory → Memory → Prop}
    {after : World → World → Prop} (hworld : world.Alike same other) {index : String}
    (hindex : index ∈ contentIndexes) (space : Space) {query : Json}
    {narrowed : List String → Json}
    (happly : ∀ fields, Scope.apply query (some space.name) fields = .ok (narrowed fields))
    {next following : Json → Work β}
    (hnext : ∀ fields twin later last,
      Scope.Probed (later.memory.mappings.get? index) fields →
      Scope.Probed (last.memory.mappings.get? index) twin → later.Alike same last →
        Work.Agrees deployment after (next (narrowed fields)) later (following (narrowed twin))
          last) :
    Work.Agrees deployment after (within index space query >>= next) world
      (within index space query >>= following) other := by
  obtain ⟨fields, later, hrun, hfields, hlater⟩ :=
    runOn_within h hworld.settled.probed hindex space happly
  obtain ⟨twin, last, hrun', htwin, hlast⟩ :=
    runOn_within h hworld.settled_other.probed hindex space happly
  rw [← hlater.memory] at hfields
  rw [← hlast.memory] at htwin
  have hagrees := hnext fields twin later last hfields htwin (hworld.unmoved hlater hlast)
  refine ⟨?_, ?_⟩
  · rw [Work.runOn_bind, hrun, Work.runOn_bind, hrun']
    exact hagrees.outcome
  · rw [Work.runOn_bind, hrun, Work.runOn_bind, hrun']
    exact hagrees.after

/-- Runs behind the scoping of a query agree, if they agree where both queries find the same
documents. -/
theorem agrees_found (h : deployment.Standard) {same : Memory → Memory → Prop}
    {after : World → World → Prop} (hworld : world.Alike same other) {index : String}
    (hindex : index ∈ contentIndexes) (space : Space) {query : Json}
    {narrowed : List String → Json}
    (happly : ∀ fields, Scope.apply query (some space.name) fields = .ok (narrowed fields))
    {test : Query.Entry → Bool}
    (hfound : ∀ (memory : Memory) fields, memory.Plain →
      Scope.Probed (memory.mappings.get? index) fields →
        memory.found index (narrowed fields) = .ok ((memory.documents index).filter test))
    (hsame : ∀ a b, same a b → (a.documents index).filter test = (b.documents index).filter test)
    {next following : Json → Work β}
    (hnext : ∀ query twin later last, later.Alike same last →
      later.memory.found index query = .ok ((later.memory.documents index).filter test) →
      last.memory.found index twin = .ok ((last.memory.documents index).filter test) →
      (later.memory.documents index).filter test = (last.memory.documents index).filter test →
        Work.Agrees deployment after (next query) later (following twin) last) :
    Work.Agrees deployment after (within index space query >>= next) world
      (within index space query >>= following) other := by
  refine agrees_within h hworld hindex space happly ?_
  intro fields twin later last hfields htwin hlater
  exact hnext _ _ later last hlater (hfound _ _ hlater.settled.plain hfields)
    (hfound _ _ hlater.settled_other.plain htwin) (hsame _ _ hlater.memory)

end Resolver

/-! ### Replies -/

/-- The network gives both runs the same reply. -/
theorem Work.agrees_exchange {same : Memory → Memory → Prop} {world other : World}
    (h : world.Alike same other) (request : Exchange) :
    Work.Agrees deployment (World.Alike same) (Work.exchange request) world
      (Work.exchange request) other := by
  refine ⟨?_, ?_⟩
  · rw [Work.runOn_exchange, Work.runOn_exchange, h.replies]
  · rw [Work.runOn_exchange, Work.runOn_exchange]
    exact ⟨⟨h.settled.plain, h.settled.probed⟩,
      ⟨h.settled_other.plain, h.settled_other.probed⟩, h.memory,
      congrArg (fun replies => (Reply.next replies).2) h.replies, h.rules⟩

end Lifecycle
