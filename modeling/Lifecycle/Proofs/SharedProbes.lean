import Lifecycle.Proofs.Table
import Lifecycle.Space.SingleFlight

/-!
# One probe of an index for all who ask

Whatever callers, probes and callbacks do, and in whatever order, the fields of an index are settled
once: at most one of its probes is not cancelled (`Sound.single`), what that probe ends with is kept
(`Sound.kept`), and every caller that stays is served what is kept or waits for a probe in flight
(`Caller.Standing`).

What an event does to a sound state is said once, by `Effect` (`Sound.effect`), and the laws of runs
come from it: an effect keeps a state sound (`Effect.sound`), so every run does (`Sound.run`). The
fields that the probes of an index end with along a run are listed by `answers`. What is kept is
what was before and those (`cache_run`), and after them nothing is probed any more (`started_run`).
`ProbedOnce` says all this of a run (`probedOnce_run`).
-/

namespace Lifecycle.SingleFlight

variable {candidates : List String} {state : State}

/-! ### Sound states -/

/-- A number is that of a probe of an index, and this has become of it. -/
def State.IsProbe (state : State) (number : Nat) (index : String) (status : Status) : Prop :=
  state.probes[number]? = some ⟨index, status⟩

/-- What has become of a caller agrees with the state: it waits for a probe of its index that is in
flight, was served what is kept, or was told that its probe is cancelled. -/
def Caller.Standing (state : State) (caller : Caller) : Prop :=
  match caller.phase with
  | .waiting =>
    ∃ number, caller.probe = some number ∧ state.inFlight.get? caller.index = some number
  | .served fields => state.cache.get? caller.index = some fields
  | .cancelled =>
    ∃ number, caller.probe = some number ∧ state.IsProbe number caller.index .cancelled
  | .gaveUp => True

/-- The probes of a state agree with what is kept, with what is in flight and with each other. -/
structure Sound (state : State) : Prop where
  /-- What is in flight for an index is a probe of the index. -/
  flying : ∀ index number, state.inFlight.get? index = some number →
    ∃ status, state.IsProbe number index status
  /-- A probe that runs is in flight. -/
  running : ∀ index number, state.IsProbe number index .running →
    state.inFlight.get? index = some number
  /-- What is kept is what a probe has ended with. -/
  kept : ∀ index fields, state.cache.get? index = some fields ↔
    ∃ number, state.IsProbe number index (.answered fields)
  /-- Two probes of an index that are not cancelled are the same. -/
  single : ∀ index n m s t, state.IsProbe n index s → state.IsProbe m index t →
    s ≠ .cancelled → t ≠ .cancelled → n = m
  standing : ∀ caller ∈ state.callers, caller.Standing state

instance (state : State) (number : Nat) (index : String) (status : Status) :
    Decidable (state.IsProbe number index status) :=
  inferInstanceAs (Decidable (_ = _))

/-- A number is that of one probe. -/
theorem State.IsProbe.unique {n : Nat} {index other : String} {s t : Status}
    (h : state.IsProbe n index s) (h' : state.IsProbe n other t) : other = index ∧ t = s := by
  rw [State.IsProbe, h] at h'
  simpa [eq_comm] using h'

theorem Sound.initial : Sound {} := by
  constructor <;> simp [State.IsProbe]

/-- Nothing is kept for an index while one of its probes runs. -/
theorem Sound.cache_of_running (sound : Sound state) {index : String} {number : Nat}
    (h : state.IsProbe number index .running) : state.cache.get? index = none := by
  by_contra hsome
  obtain ⟨fields, hfields⟩ := Option.ne_none_iff_exists'.mp hsome
  obtain ⟨other, hother⟩ := (sound.kept index fields).mp hfields
  have heq := sound.single _ _ _ _ _ h hother (by simp) (by simp)
  rw [heq, State.IsProbe, hother] at h
  simp at h

/-! ### What an event does -/

/-- The state with one more caller. -/
def State.join (state : State) (newcomer : Caller) : State :=
  { state with callers := state.callers ++ [newcomer] }

/-- The state with a new probe of an index in flight. -/
def State.launch (state : State) (index : String) : State :=
  { state with
    inFlight := state.inFlight.put index state.probes.length
    probes := state.probes ++ [⟨index, .running⟩] }

/-- The state in which a probe of an index has come to a status. -/
def State.mark (state : State) (number : Nat) (index : String) (status : Status) : State :=
  { state with probes := state.probes.set number ⟨index, status⟩ }

/-- The state in which the callbacks of a probe have run. -/
def State.land (state : State) (number : Nat) (index : String) (status : Status) : State :=
  { state with
    inFlight :=
      if state.inFlight.get? index = some number then state.inFlight.remove index
      else state.inFlight
    callers := state.callers.map (Caller.told number status.phase) }

/-- What a call does: the caller is one more behind the others. It is served what is kept for the
index. Where nothing is kept, it shares the probe in flight and comes to what that one has come to,
and where none is in flight, it waits for a new one. -/
inductive Admits (state : State) (index : String) : State → Prop where
  | serve {fields : SpaceFields} (kept : state.cache.get? index = some fields) :
    Admits state index (state.join ⟨index, none, .served fields⟩)
  | share {number : Nat} {status : Status} (missing : state.cache.get? index = none)
    (flying : state.inFlight.get? index = some number)
    (probe : state.IsProbe number index status) :
    Admits state index (state.join ⟨index, some number, status.phase⟩)
  | start (missing : state.cache.get? index = none) (idle : state.inFlight.get? index = none) :
    Admits state index ((state.launch index).join ⟨index, some state.probes.length, .waiting⟩)

/-- What an event does to a sound state. -/
inductive Effect (candidates : List String) (state : State) : Event → State → Prop where
  | call {index : String} {after : State} (admits : Admits state index after) :
    Effect candidates state (.call index) after
  | leave (position : Nat) : Effect candidates state (.giveUp position) (abandon state position)
  /-- The fields that a probe ends with are kept. -/
  | answer {number : Nat} {index : String} {outcome : Outcome} {fields : SpaceFields}
    (running : state.IsProbe number index .running)
    (found : outcome.fields? candidates = some fields) :
    Effect candidates state (.finish number outcome)
      { state.mark number index (.answered fields) with cache := state.cache.put index fields }
  | cancel {number : Nat} {index : String} {outcome : Outcome}
    (running : state.IsProbe number index .running) (lost : outcome.fields? candidates = none) :
    Effect candidates state (.finish number outcome) (state.mark number index .cancelled)
  | land {number : Nat} {index : String} {status : Status}
    (probe : state.IsProbe number index status) (ended : status ≠ .running) :
    Effect candidates state (.settle number) (state.land number index status)
  /-- A probe that does not run does not end. -/
  | missed {number : Nat} {outcome : Outcome}
    (ended : ∀ index, ¬ state.IsProbe number index .running) :
    Effect candidates state (.finish number outcome) state
  /-- A probe that has not ended calls nobody back. -/
  | early {number : Nat}
    (running : ∀ index status, state.IsProbe number index status → status = .running) :
    Effect candidates state (.settle number) state

theorem Sound.admits (sound : Sound state) (index : String) :
    Admits state index (ask state index) := by
  rw [ask]
  cases hcache : state.cache.get? index with
  | some fields => exact .serve hcache
  | none =>
    cases hflight : state.inFlight.get? index with
    | some number =>
      obtain ⟨status, hstatus⟩ := sound.flying index number hflight
      have hphase : state.phaseOf number = status.phase := by
        rw [State.phaseOf, hstatus]
        rfl
      simp only [hphase]
      exact .share hcache hflight hstatus
    | none => exact .start hcache hflight

theorem Sound.effect (sound : Sound state) (candidates : List String) (event : Event) :
    Effect candidates state event (step candidates state event) := by
  cases event with
  | call index => exact .call (sound.admits index)
  | giveUp position => exact .leave position
  | finish number outcome =>
    simp only [step]
    rw [finish]
    split
    · next index hrunning =>
      -- nothing is kept for the index yet, so that the fields of this probe are
      cases hfields : outcome.fields? candidates with
      | none => exact .cancel hrunning hfields
      | some fields =>
        rw [conclude, sound.cache_of_running hrunning]
        exact .answer hrunning hfields
    · next hended => exact .missed fun index h => hended index h
  | settle number =>
    simp only [step]
    rw [settle]
    split
    · next hnone => exact .early fun index status h => by simp [State.IsProbe, hnone] at h
    · next other hrunning =>
      exact .early fun index status h => (State.IsProbe.unique hrunning h).2
    · next index status hended hprobe => exact .land hprobe fun heq => hended (heq ▸ rfl)

/-! ### Effects keep a state sound -/

/-- What a caller stands on lasts: what is kept, what is in flight, which probes are cancelled. -/
theorem Caller.Standing.mono {after : State} {caller : Caller} (h : caller.Standing state)
    (cache : ∀ fields, state.cache.get? caller.index = some fields →
      after.cache.get? caller.index = some fields)
    (inFlight : ∀ number, caller.phase = .waiting → caller.probe = some number →
      state.inFlight.get? caller.index = some number →
      after.inFlight.get? caller.index = some number)
    (cancelled : ∀ number, state.IsProbe number caller.index .cancelled →
      after.IsProbe number caller.index .cancelled) : caller.Standing after := by
  rw [Standing] at h ⊢
  cases hphase : caller.phase with
  | waiting =>
    rw [hphase] at h
    obtain ⟨number, hprobe, hnumber⟩ := h
    exact ⟨number, hprobe, inFlight number hphase hprobe hnumber⟩
  | served fields =>
    rw [hphase] at h
    exact cache fields h
  | cancelled =>
    rw [hphase] at h
    obtain ⟨number, hprobe, hnumber⟩ := h
    exact ⟨number, hprobe, cancelled number hnumber⟩
  | gaveUp => trivial

theorem Sound.withCallers (sound : Sound state) (callers : List Caller)
    (h : ∀ caller ∈ callers, caller.Standing state) : Sound { state with callers } :=
  ⟨sound.flying, sound.running, sound.kept, sound.single, h⟩

theorem Sound.join (sound : Sound state) {newcomer : Caller} (h : newcomer.Standing state) :
    Sound (state.join newcomer) := by
  refine sound.withCallers _ fun caller hmem => ?_
  rcases List.mem_append.mp hmem with hold | hnew
  · exact sound.standing caller hold
  · rw [List.mem_singleton.mp hnew]
    exact h

theorem isProbe_launch (state : State) (index : String) (number : Nat) (other : String)
    (status : Status) :
    (state.launch index).IsProbe number other status ↔ state.IsProbe number other status ∨
      number = state.probes.length ∧ other = index ∧ status = .running := by
  have hstart : state.IsProbe number other status → number < state.probes.length :=
    fun h => (List.getElem?_eq_some_iff.mp h).1
  rcases Nat.lt_trichotomy number state.probes.length with hlt | heq | hgt
  · simp [State.IsProbe, State.launch, List.getElem?_append_left hlt,
      Nat.ne_of_lt hlt]
  · simp [State.IsProbe, State.launch, heq, eq_comm]
  · have hnone : number ≠ state.probes.length ∧ ¬ number < state.probes.length := by omega
    have hlong : (state.probes ++ [(⟨index, .running⟩ : Probe)]).length ≤ number := by
      simp only [List.length_append, List.length_singleton]
      omega
    simp [State.IsProbe, State.launch, List.getElem?_eq_none hlong, hnone.1,
      List.getElem?_eq_none (Nat.le_of_not_lt hnone.2)]

/-- A probe of an index may start when nothing is kept for the index and none is in flight. -/
theorem Sound.launch (sound : Sound state) {index : String}
    (hcache : state.cache.get? index = none) (hflight : state.inFlight.get? index = none) :
    Sound (state.launch index) := by
  -- while it runs, a probe is in flight, and once it is answered, its fields are kept
  have hlast : ∀ number status, state.IsProbe number index status → status = .cancelled := by
    intro number status h
    cases status with
    | running => simp [sound.running index number h] at hflight
    | answered fields => simp [(sound.kept index fields).mpr ⟨number, h⟩] at hcache
    | cancelled => rfl
  constructor
  case flying =>
    intro other number h
    rw [State.launch, Table.get?_put] at h
    split at h
    · next heq =>
      have hnumber : number = state.probes.length := by simpa using h.symm
      exact ⟨.running, (isProbe_launch ..).mpr (.inr ⟨hnumber, heq.symm, rfl⟩)⟩
    · obtain ⟨status, hstatus⟩ := sound.flying other number h
      exact ⟨status, (isProbe_launch ..).mpr (.inl hstatus)⟩
  case running =>
    intro other number h
    rw [State.launch, Table.get?_put]
    rcases (isProbe_launch ..).mp h with hold | ⟨hnumber, hother, -⟩
    · have hne : index ≠ other := by
        rintro rfl
        simpa using hlast number .running hold
      rw [if_neg hne]
      exact sound.running other number hold
    · rw [if_pos hother.symm, hnumber]
  case kept =>
    intro other fields
    rw [show (state.launch index).cache = state.cache from rfl, sound.kept]
    simp [isProbe_launch]
  case single =>
    -- the new probe and an earlier one: the earlier one is cancelled
    intro other n m s t hn hm hs ht
    rcases (isProbe_launch ..).mp hn with hn | ⟨hn, hnew, -⟩ <;>
      rcases (isProbe_launch ..).mp hm with hm | ⟨hm, hnew', -⟩
    · exact sound.single other n m s t hn hm hs ht
    · exact absurd (hlast n s (hnew' ▸ hn)) hs
    · exact absurd (hlast m t (hnew ▸ hm)) ht
    · omega
  case standing =>
    intro caller hmem
    refine (sound.standing caller hmem).mono (fun _ h => h) (fun number _ _ h => ?_)
      (fun number h => (isProbe_launch ..).mpr (.inl h))
    rw [State.launch, Table.get?_put]
    split
    · next heq => simp [← heq, hflight] at h
    · exact h

theorem Sound.abandon (sound : Sound state) (position : Nat) : Sound (abandon state position) := by
  refine sound.withCallers _ fun caller hmem => ?_
  obtain ⟨i, hi⟩ := List.mem_iff_getElem?.mp hmem
  rw [List.getElem?_modify] at hi
  obtain ⟨old, hold, rfl⟩ := Option.map_eq_some_iff.mp hi
  have hstanding := sound.standing old (List.mem_of_getElem? hold)
  split
  · rw [Caller.leave]
    split
    · trivial
    · exact hstanding
  · exact hstanding

theorem isProbe_mark {number : Nat} {index : String} (status : Status)
    (h : state.IsProbe number index .running) (n : Nat) (other : String) (s : Status) :
    (state.mark number index status).IsProbe n other s ↔
      n = number ∧ other = index ∧ s = status ∨ n ≠ number ∧ state.IsProbe n other s := by
  have hlt : number < state.probes.length := (List.getElem?_eq_some_iff.mp h).1
  by_cases hn : n = number
  · subst hn
    simp [State.IsProbe, State.mark, List.getElem?_set_self hlt, eq_comm]
  · simp [State.IsProbe, State.mark, List.getElem?_set_ne (Ne.symm hn), hn]

/-- The end of one probe leaves all other probes that have ended, and every probe is one still. -/
theorem State.IsProbe.mark {n : Nat} {other : String} {s : Status} (h : state.IsProbe n other s)
    {number : Nat} {index : String} (running : state.IsProbe number index .running)
    (status : Status) :
    ∃ t, (state.mark number index status).IsProbe n other t ∧ (s = .running ∨ t = s) := by
  by_cases hn : n = number
  · subst hn
    obtain ⟨hindex, hs⟩ := running.unique h
    exact ⟨status, (isProbe_mark status running _ _ _).mpr (.inl ⟨rfl, hindex, rfl⟩), .inl hs⟩
  · exact ⟨s, (isProbe_mark status running _ _ _).mpr (.inr ⟨hn, h⟩), .inr rfl⟩

/-- A probe that runs may end, when the fields it is answered with, if it is, are kept. -/
theorem Sound.mark (sound : Sound state) {number : Nat} {index : String} {status : Status}
    (h : state.IsProbe number index .running) (hended : status ≠ .running)
    {cache : Table SpaceFields} (hcache : ∀ other fields, cache.get? other = some fields ↔
      state.cache.get? other = some fields ∨ other = index ∧ status = .answered fields) :
    Sound { state.mark number index status with cache } := by
  have hother : ∀ n other s, s ≠ .running → state.IsProbe n other s →
      (state.mark number index status).IsProbe n other s := by
    intro n other s hs hn
    obtain ⟨t, ht, hsame⟩ := hn.mark h status
    exact hsame.resolve_left hs ▸ ht
  refine ⟨?_, ?_, ?_, ?_, ?_⟩
  · intro other n hn
    obtain ⟨s, hs⟩ := sound.flying other n hn
    by_cases heq : n = number
    · subst heq
      exact ⟨status, (isProbe_mark status h _ _ _).mpr (.inl ⟨rfl, (h.unique hs).1, rfl⟩)⟩
    · exact ⟨s, (isProbe_mark status h _ _ _).mpr (.inr ⟨heq, hs⟩)⟩
  · intro other n hn
    rcases (isProbe_mark status h _ _ _).mp hn with ⟨-, -, hs⟩ | ⟨-, hold⟩
    · exact absurd hs.symm hended
    · exact sound.running other n hold
  · intro other fields
    rw [hcache, sound.kept]
    constructor
    · rintro (⟨n, hn⟩ | ⟨rfl, rfl⟩)
      · exact ⟨n, hother n other _ (by simp) hn⟩
      · exact ⟨number, (isProbe_mark _ h _ _ _).mpr (.inl ⟨rfl, rfl, rfl⟩)⟩
    · rintro ⟨n, hn⟩
      rcases (isProbe_mark status h _ _ _).mp hn with ⟨-, hindex, hs⟩ | ⟨-, hold⟩
      · exact .inr ⟨hindex, hs.symm⟩
      · exact .inl ⟨n, hold⟩
  · intro other n m s t hn hm hs ht
    rcases (isProbe_mark status h _ _ _).mp hn with ⟨hn, hindex, -⟩ | ⟨hne, hn⟩ <;>
      rcases (isProbe_mark status h _ _ _).mp hm with ⟨hm, hindex', -⟩ | ⟨hne', hm⟩
    · rw [hn, hm]
    · exact absurd (sound.single _ m number t _ (hindex ▸ hm) h ht (by simp)) hne'
    · exact absurd (sound.single _ n number s _ (hindex' ▸ hn) h hs (by simp)) hne
    · exact sound.single other n m s t hn hm hs ht
  · intro caller hmem
    exact (sound.standing caller hmem).mono (fun fields hf => (hcache _ _).mpr (.inl hf))
      (fun _ _ _ hn => hn)
      (fun n hn => hother n _ _ (by simp) hn)

/-- The probes in flight once the callbacks of a probe have run are the others. -/
theorem Sound.get?_landed (sound : Sound state) {number : Nat} {index : String} {status : Status}
    (h : state.IsProbe number index status) (other : String) (n : Nat) :
    (if state.inFlight.get? index = some number then state.inFlight.remove index
      else state.inFlight).get? other = some n ↔
    state.inFlight.get? other = some n ∧ n ≠ number := by
  have hindex : state.inFlight.get? other = some number → other = index := by
    intro hflight
    obtain ⟨s, hs⟩ := sound.flying other number hflight
    exact (h.unique hs).1
  split
  · next hin =>
    rw [Table.get?_remove]
    by_cases heq : index = other
    · subst heq
      simp [hin, eq_comm]
    · rw [if_neg heq]
      refine ⟨fun hn => ⟨hn, ?_⟩, And.left⟩
      rintro rfl
      exact heq (hindex hn).symm
  · next hout =>
    refine ⟨fun hn => ⟨hn, ?_⟩, And.left⟩
    rintro rfl
    exact hout (hindex hn ▸ hn)

/-- Who waits for a probe that has ended is told what it has ended with. -/
theorem Sound.standing_told (sound : Sound state) {number : Nat} {index : String} {status : Status}
    (h : state.IsProbe number index status) (hended : status ≠ .running) {caller : Caller}
    (hmem : caller ∈ state.callers) (hprobe : caller.probe = some number)
    (hwaits : caller.phase = .waiting) :
    Caller.Standing state { caller with phase := status.phase } := by
  have hstanding := sound.standing caller hmem
  rw [Caller.Standing, hwaits] at hstanding
  obtain ⟨n, hn, hflight⟩ := hstanding
  obtain rfl : n = number := by simpa [hprobe, eq_comm] using hn
  obtain ⟨s, hs⟩ := sound.flying _ _ hflight
  obtain ⟨hindex, rfl⟩ := h.unique hs
  rw [Caller.Standing]
  cases s with
  | running => exact absurd rfl hended
  | answered fields => exact (sound.kept _ _).mpr ⟨n, hs⟩
  | cancelled => exact ⟨n, hprobe, hs⟩

theorem Sound.land (sound : Sound state) {number : Nat} {index : String} {status : Status}
    (h : state.IsProbe number index status) (hended : status ≠ .running) :
    Sound (state.land number index status) := by
  have hflight := sound.get?_landed h
  refine ⟨fun other n hn => sound.flying other n ((hflight other n).mp hn).1, ?_, sound.kept,
    sound.single, ?_⟩
  · intro other n hn
    refine (hflight other n).mpr ⟨sound.running other n hn, ?_⟩
    rintro rfl
    exact hended (hn.unique h).2
  · intro caller hmem
    obtain ⟨old, hold, rfl⟩ := List.mem_map.mp hmem
    -- who waits for the probe is told; who waits for another one, waits for one still in flight
    by_cases hwaits : old.probe = some number ∧ old.phase = .waiting
    · rw [Caller.told, if_pos hwaits]
      refine (sound.standing_told h hended hold hwaits.1 hwaits.2).mono (fun _ hf => hf) ?_
        (fun _ hn => hn)
      intro n hphase
      cases status with
      | running => exact absurd rfl hended
      | answered fields => simp [Status.phase] at hphase
      | cancelled => simp [Status.phase] at hphase
    · rw [Caller.told, if_neg hwaits]
      refine (sound.standing old hold).mono (fun _ hf => hf) (fun n hphase hprobe hn => ?_)
        (fun _ hn => hn)
      refine (hflight _ _).mpr ⟨hn, ?_⟩
      rintro rfl
      exact hwaits ⟨hprobe, hphase⟩

theorem Admits.sound (sound : Sound state) {index : String} {after : State}
    (h : Admits state index after) : Sound after := by
  cases h with
  | serve kept => exact sound.join kept
  | @share number status missing flying probe =>
    refine sound.join ?_
    cases status with
    | running => exact ⟨number, rfl, flying⟩
    | answered fields => exact (sound.kept index fields).mpr ⟨number, probe⟩
    | cancelled => exact ⟨number, rfl, probe⟩
  | start missing idle =>
    exact (sound.launch missing idle).join ⟨_, rfl, by simp [State.launch, Table.get?_put]⟩

theorem Effect.sound (sound : Sound state) {event : Event} {after : State}
    (h : Effect candidates state event after) : Sound after := by
  cases h with
  | call admits => exact admits.sound sound
  | leave position => exact sound.abandon position
  | @answer number index outcome fields running found =>
    refine sound.mark running (by simp) fun other kept => ?_
    rw [Table.get?_put]
    by_cases hindex : index = other
    · simp [← hindex, sound.cache_of_running running]
    · simp [hindex, Ne.symm hindex]
  | cancel running lost => exact sound.mark running (by simp) (by simp)
  | land probe ended => exact sound.land probe ended
  | missed ended => exact sound
  | early running => exact sound

theorem Sound.step (sound : Sound state) (candidates : List String) (event : Event) :
    Sound (step candidates state event) := (sound.effect candidates event).sound sound

/-- Every run keeps a state sound. -/
theorem Sound.run (sound : Sound state) (candidates : List String) (events : List Event) :
    Sound (run candidates state events) := by
  induction events generalizing state with
  | nil => exact sound
  | cons event rest ih => exact ih (sound.step candidates event)

/-- Every probe stays one of its index, and what has become of it when it has ended, remains. -/
theorem Effect.isProbe {event : Event} {after : State} (h : Effect candidates state event after)
    {number : Nat} {index : String} {status : Status} (hprobe : state.IsProbe number index status) :
    ∃ s, after.IsProbe number index s ∧ (status = .running ∨ s = status) := by
  cases h with
  | call admits =>
    cases admits with
    | serve kept => exact ⟨status, hprobe, .inr rfl⟩
    | share missing flying probe => exact ⟨status, hprobe, .inr rfl⟩
    | start missing idle => exact ⟨status, (isProbe_launch ..).mpr (.inl hprobe), .inr rfl⟩
  | leave position => exact ⟨status, hprobe, .inr rfl⟩
  | answer running found => exact hprobe.mark running _
  | cancel running lost => exact hprobe.mark running _
  | land probe ended => exact ⟨status, hprobe, .inr rfl⟩
  | missed ended => exact ⟨status, hprobe, .inr rfl⟩
  | early running => exact ⟨status, hprobe, .inr rfl⟩

/-! ### What the probes of an index end with -/

/-- The fields that an event ends a probe of an index with, if it does. -/
def answer? (candidates : List String) (index : String) (state : State) :
    Event → Option SpaceFields
  | .finish number outcome =>
    if state.IsProbe number index .running then outcome.fields? candidates else none
  | _ => none

/-- The fields that the probes of an index end with along a run, in order. -/
def answers (candidates : List String) (index : String) : State → List Event → List SpaceFields
  | _, [] => []
  | state, event :: rest =>
    (answer? candidates index state event).toList ++
      answers candidates index (step candidates state event) rest

/-- An event keeps for an index what was kept before or what it ends a probe with. -/
theorem Effect.cache (sound : Sound state) {event : Event} {after : State}
    (h : Effect candidates state event after) (index : String) :
    after.cache.get? index =
      (state.cache.get? index).or (answer? candidates index state event) := by
  cases h with
  | call admits =>
    simp only [answer?, Option.or_none]
    cases admits <;> rfl
  | leave position => simp [answer?, abandon]
  | @answer number other outcome fields running found =>
    rw [answer?, Table.get?_put]
    by_cases hindex : other = index
    · subst hindex
      rw [if_pos rfl, if_pos running, sound.cache_of_running running, found, Option.none_or]
    · have hanother : ¬ state.IsProbe number index .running :=
        fun hrunning => hindex (hrunning.unique running).1
      rw [if_neg hindex, if_neg hanother, Option.or_none]
  | cancel running lost => simp [answer?, lost, State.mark]
  | land probe ended => simp [answer?, State.land]
  | missed ended => rw [answer?, if_neg (ended index), Option.or_none]
  | early running => simp only [answer?, Option.or_none]

theorem cache_step (sound : Sound state) (event : Event) (index : String) :
    (step candidates state event).cache.get? index =
      (state.cache.get? index).or (answer? candidates index state event) :=
  (sound.effect candidates event).cache sound index

/-- No probe of an index ends with fields when some are kept. -/
theorem answer?_of_cached (sound : Sound state) {index : String} {fields : SpaceFields}
    (h : state.cache.get? index = some fields) (event : Event) :
    answer? candidates index state event = none := by
  cases event with
  | finish number outcome =>
    rw [answer?]
    split
    · next hrunning => simp [sound.cache_of_running hrunning] at h
    · rfl
  | _ => rfl

theorem answers_of_cached (sound : Sound state) {index : String} {fields : SpaceFields}
    (h : state.cache.get? index = some fields) (events : List Event) :
    answers candidates index state events = [] := by
  induction events generalizing state with
  | nil => rfl
  | cons event rest ih =>
    have hstep : (step candidates state event).cache.get? index = some fields := by
      rw [cache_step sound, h, Option.some_or]
    rw [answers, answer?_of_cached sound h, ih (sound.step candidates event) hstep]
    rfl

/-- What is kept after a run is what was kept before, or the first that a probe ended with. -/
theorem cache_run (sound : Sound state) (events : List Event) (index : String) :
    (run candidates state events).cache.get? index =
      (state.cache.get? index).or (answers candidates index state events).head? := by
  induction events generalizing state with
  | nil => simp [run, answers]
  | cons event rest ih =>
    calc (run candidates state (event :: rest)).cache.get? index
        = ((step candidates state event).cache.get? index).or
            (answers candidates index (step candidates state event) rest).head? :=
          ih (sound.step candidates event)
      _ = (state.cache.get? index).or (answers candidates index state (event :: rest)).head? := by
          rw [cache_step sound, answers, Option.or_assoc]
          cases answer? candidates index state event <;> rfl

/-- The probes of an index end with fields once. -/
theorem length_answers (sound : Sound state) (events : List Event) (index : String) :
    (answers candidates index state events).length ≤ 1 := by
  induction events generalizing state with
  | nil => simp [answers]
  | cons event rest ih =>
    rw [answers]
    cases hanswer : answer? candidates index state event with
    | none => exact ih (sound.step candidates event)
    | some fields =>
      have hkept : (step candidates state event).cache.get? index = some fields := by
        cases hcache : state.cache.get? index with
        | none => rw [cache_step sound, hcache, hanswer, Option.none_or]
        | some old => simp [answer?_of_cached sound hcache] at hanswer
      simp [answers_of_cached (sound.step candidates event) hkept]

/-- What becomes of a probe that ends with fields, or without. -/
def Status.ofFields? : Option SpaceFields → Status
  | some fields => .answered fields
  | none => .cancelled

/-- A probe of an index has ended with fields, which are kept, or without, and nothing is kept. -/
def Ended (state : State) (number : Nat) (index : String) (fields? : Option SpaceFields) : Prop :=
  state.IsProbe number index (.ofFields? fields?) ∧ state.cache.get? index = fields?

theorem Sound.ended (sound : Sound state) (candidates : List String) {number : Nat}
    {index : String} (h : state.IsProbe number index .running) (outcome : Outcome) :
    Ended (SingleFlight.step candidates state (.finish number outcome)) number index
      (outcome.fields? candidates) := by
  have hcache := (sound.effect candidates (.finish number outcome)).cache sound index
  rw [sound.cache_of_running h, Option.none_or, answer?, if_pos h] at hcache
  refine ⟨?_, hcache⟩
  have heffect := sound.effect candidates (.finish number outcome)
  generalize SingleFlight.step candidates state (.finish number outcome) = after at heffect
  cases heffect with
  | answer running found =>
    rw [found]
    exact (isProbe_mark _ running _ _ _).mpr (.inl ⟨rfl, (running.unique h).1, rfl⟩)
  | cancel running lost =>
    rw [lost]
    exact (isProbe_mark _ running _ _ _).mpr (.inl ⟨rfl, (running.unique h).1, rfl⟩)
  | missed ended => exact absurd h (ended index)

/-- A probe that is not cancelled has fields once an end has come that does not cancel it. -/
theorem Sound.exists_answered (sound : Sound state) (candidates : List String) {number : Nat}
    {index : String} {status : Status} (h : state.IsProbe number index status)
    (hstatus : status ≠ .cancelled) {outcome : Outcome} (houtcome : outcome ≠ .cancelled) :
    ∃ fields, (SingleFlight.step candidates state (.finish number outcome)).IsProbe number index
      (.answered fields) := by
  cases status with
  | cancelled => exact absurd rfl hstatus
  | answered fields =>
    obtain ⟨s, hs, hsame⟩ := (sound.effect candidates (.finish number outcome)).isProbe h
    exact ⟨fields, hsame.resolve_left (by simp) ▸ hs⟩
  | running =>
    obtain ⟨fields, hfields⟩ : ∃ fields, outcome.fields? candidates = some fields := by
      cases outcome with
      | answered answer => exact ⟨_, rfl⟩
      | failed => exact ⟨_, rfl⟩
      | cancelled => exact absurd rfl houtcome
    have hended := (sound.ended candidates h outcome).1
    rw [hfields] at hended
    exact ⟨fields, hended⟩

/-! ### Which probes are started -/

/-- The index that an event asks for. -/
def Event.index? : Event → Option String
  | .call index => some index
  | _ => none

/-- The indexes that are asked for along a run, in order. -/
def asked (events : List Event) : List String := events.filterMap Event.index?

theorem asked_cons (event : Event) (rest : List Event) :
    asked (event :: rest) = event.index?.toList ++ asked rest := by
  rw [asked, List.filterMap_cons]
  cases event.index? <;> rfl

theorem State.IsProbe.mem_started {number : Nat} {index : String} {status : Status}
    (h : state.IsProbe number index status) : index ∈ state.started :=
  List.mem_map.mpr ⟨_, List.mem_of_getElem? h, rfl⟩

theorem started_mark {number : Nat} {index : String} (status : Status)
    (h : state.IsProbe number index .running) :
    (state.mark number index status).started = state.started := by
  rw [State.started, State.started, State.mark, List.map_set]
  refine List.ext_getElem? fun i => ?_
  by_cases hi : number = i
  · subst hi
    rw [State.IsProbe] at h
    have hlt : number < (state.probes.map (·.index)).length := by
      simpa using (List.getElem?_eq_some_iff.mp h).1
    rw [List.getElem?_set_self hlt, List.getElem?_map, h]
    rfl
  · rw [List.getElem?_set_ne hi]

/-- A probe is started by a call of its index, for which nothing is kept and none is in flight. -/
theorem Effect.started {event : Event} {after : State} (h : Effect candidates state event after) :
    after.started = state.started ∨ ∃ index, event = .call index ∧
      state.cache.get? index = none ∧ after.started = state.started ++ [index] := by
  cases h with
  | @call index _ admits =>
    cases admits with
    | serve kept => exact .inl rfl
    | share missing flying probe => exact .inl rfl
    | start missing idle =>
      exact .inr ⟨index, rfl, missing, by simp [State.started, State.launch, State.join]⟩
  | leave position => exact .inl rfl
  | answer running found => exact .inl (started_mark _ running)
  | cancel running lost => exact .inl (started_mark _ running)
  | land probe ended => exact .inl rfl
  | missed ended => exact .inl rfl
  | early running => exact .inl rfl

/-- Once a caller has asked for an index, a probe of it has been started. -/
theorem Admits.mem_started (sound : Sound state) {index : String} {after : State}
    (h : Admits state index after) : index ∈ after.started := by
  cases h with
  | @serve fields kept =>
    obtain ⟨number, hnumber⟩ := (sound.kept index fields).mp kept
    exact hnumber.mem_started
  | share missing flying probe => exact probe.mem_started
  | start missing idle => simp [State.started, State.launch, State.join]

theorem Effect.mem_started (sound : Sound state) {event : Event} {after : State}
    (h : Effect candidates state event after) (index : String) :
    index ∈ after.started ↔ index ∈ state.started ∨ index ∈ event.index?.toList := by
  constructor
  · intro hmem
    rcases h.started with hsame | ⟨other, rfl, -, hnew⟩
    · exact .inl (hsame ▸ hmem)
    · simpa [hnew, Event.index?] using hmem
  · rintro (hold | hcalled)
    · rcases h.started with hsame | ⟨other, -, -, hnew⟩
      · exact hsame ▸ hold
      · exact hnew ▸ List.mem_append_left _ hold
    · cases h with
      | call admits =>
        obtain rfl : index = _ := by simpa [Event.index?] using hcalled
        exact admits.mem_started sound
      | _ => simp [Event.index?] at hcalled

/-- What is probed along a run is what is asked for. -/
theorem mem_started_run (sound : Sound state) (events : List Event) (index : String) :
    index ∈ (run candidates state events).started ↔
      index ∈ state.started ∨ index ∈ asked events := by
  induction events generalizing state with
  | nil => simp [run, asked]
  | cons event rest ih =>
    have hrest := ih (sound.step candidates event)
    rw [asked_cons, List.mem_append, ← or_assoc,
      ← (sound.effect candidates event).mem_started sound]
    exact hrest

/-- No probe of an index is started when fields are kept for it. -/
theorem started_step (sound : Sound state) {index : String} {fields : SpaceFields}
    (h : state.cache.get? index = some fields) (event : Event) :
    (step candidates state event).started.count index = state.started.count index := by
  rcases (sound.effect candidates event).started with hsame | ⟨other, -, hnone, hnew⟩
  · rw [hsame]
  · have hne : other ≠ index := by
      rintro rfl
      simp [h] at hnone
    simp [hnew, hne]

theorem started_run (sound : Sound state) {index : String} {fields : SpaceFields}
    (h : state.cache.get? index = some fields) (events : List Event) :
    (run candidates state events).started.count index = state.started.count index := by
  induction events generalizing state with
  | nil => rfl
  | cons event rest ih =>
    have hstep : (step candidates state event).cache.get? index = some fields := by
      rw [cache_step sound, h, Option.some_or]
    exact (ih (sound.step candidates event) hstep).trans (started_step sound h event)

/-! ### One probe -/

/-- Along a run an index is probed once. -/
structure ProbedOnce (candidates : List String) (events : List Event) (state : State) : Prop where
  /-- What is probed is what is asked for. -/
  probed : ∀ index, index ∈ state.started ↔ index ∈ asked events
  /-- At most one probe of an index runs. -/
  one_running : ∀ index n m, state.IsProbe n index .running →
    state.IsProbe m index .running → n = m
  /-- At most one probe of an index ever ends uncancelled. -/
  one_answer : ∀ index, (answers candidates index {} events).length ≤ 1
  /-- After it no probe of the index is started. -/
  no_more : ∀ index, answers candidates index {} events ≠ [] → ∀ later,
    (run candidates state later).started.count index = state.started.count index
  /-- What is kept for the index is what it has ended with. -/
  kept : ∀ index, state.cache.get? index = (answers candidates index {} events).head?
  /-- What is kept stays. -/
  stays : ∀ index fields, state.cache.get? index = some fields → ∀ later,
    (run candidates state later).cache.get? index = some fields
  /-- A probe that is answered ends with what the answer tells. -/
  end_answered : ∀ number index answer, state.IsProbe number index .running →
    Ended (run candidates state [.finish number (.answered answer)]) number index
      (some (SpaceFields.ofAnswer candidates answer))
  /-- A probe that fails ends with all candidates. -/
  end_failed : ∀ number index, state.IsProbe number index .running →
    Ended (run candidates state [.finish number .failed]) number index
      (some ⟨candidates, candidates⟩)
  /-- A probe that is cancelled ends with nothing. -/
  end_cancelled : ∀ number index, state.IsProbe number index .running →
    Ended (run candidates state [.finish number .cancelled]) number index none

theorem probedOnce_run (candidates : List String) (events : List Event) :
    ProbedOnce candidates events (run candidates {} events) := by
  have sound : Sound (run candidates {} events) := Sound.initial.run candidates events
  have hkept : ∀ index, (run candidates {} events).cache.get? index =
      (answers candidates index {} events).head? := cache_run Sound.initial events
  refine
    { probed := fun index => by
        simpa [State.started] using mem_started_run Sound.initial events index
      one_running := fun index n m hn hm => sound.single index n m _ _ hn hm (by simp) (by simp)
      one_answer := length_answers Sound.initial events
      no_more := fun index hanswers later => ?_
      kept := hkept
      stays := fun index fields hfields later => ?_
      end_answered := fun _ _ answer hrunning => sound.ended candidates hrunning (.answered answer)
      end_failed := fun _ _ hrunning => sound.ended candidates hrunning .failed
      end_cancelled := fun _ _ hrunning => sound.ended candidates hrunning .cancelled }
  · obtain ⟨fields, rest, hfields⟩ := List.exists_cons_of_ne_nil hanswers
    have hcache := hkept index
    rw [hfields, List.head?_cons] at hcache
    exact started_run sound hcache later
  · rw [cache_run sound, hfields, Option.some_or]

end Lifecycle.SingleFlight
