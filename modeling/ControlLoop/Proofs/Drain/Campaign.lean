/-
At most one member in a store has leave to go, although anybody may
take a request back, remove a member in any state, or create another
one under its name.

# The campaign

Others create members, remove them, and change those that they read, as
long as none of this does the controller's part. The controller looks
at the store as it was at some moment, not before the one it looked at
last, and writes next steps of that moment onto the members as they
were then, in any number and order, with others in between
(`Campaign.Step`). So a whole pass is many steps here, and may be cut
short (`exists_run_pass`).

# The invariant

A member may go through its states again and again between two looks,
so a state that is found as it was seen says nothing about the time in
between. The version does: if a write of the controller lands, the
member was the same object all the while (`Memory.Since.between`).
Hence, from the last look on, who is acknowledged at one moment was
there and asked to drain at every earlier one (`Leads`). That is all
the rule for leave needs to have the same answer at every moment since
the look (`Group.firstAcknowledged_of_asked`), and so every later pass
would give leave to the member that has it already (`Group.Keeps`).
-/
import ControlLoop.Drain.Members
import ControlLoop.Proofs.Drain.Marks
import ControlLoop.Proofs.Drain.Safety
import ControlLoop.Proofs.Store.Since

namespace ControlLoop.Drain

open Memory (Since)

variable {β : Type}

-- ========================================================= the members

/-- The states of the members in a store. -/
def states (m : Memory β) : Group Key := Snapshot.group m.objects

/-- Every member's annotations describe a state, and no two members have leave to go. -/
structure Orderly (m : Memory β) : Prop where
  valid : ∀ {k o}, m.object? k = some o → ∃ s, state o.metadata = .ok s
  single : (states m).AtMostOneFinished

theorem get?_states (m : Memory β) (k : Key) :
    (states m).get? k = (m.object? k).bind fun o => (state o.metadata).toOption := by
  have hgroup : states m = SortedMap.ofList (m.objects.toList.filterMap fun e =>
      (state e.2.metadata).toOption.map fun s => (e.1, s)) := by
    unfold states Snapshot.group
    congr 2
    funext ⟨k, o⟩
    dsimp only
    cases state o.metadata with
    | error e => rfl
    | ok s => rfl
  rw [hgroup]
  exact SortedMap.get?_ofList_filterMap m.objects (fun _ o => (state o.metadata).toOption) k

theorem get?_states_eq_some {m : Memory β} {k : Key} {s : DrainState} :
    (states m).get? k = some s ↔ ∃ o, m.object? k = some o ∧ state o.metadata = .ok s := by
  have htoOption : ∀ x : Except Error DrainState, x.toOption = some s ↔ x = .ok s := by
    rintro (e | t)
    · exact ⟨nofun, nofun⟩
    · exact ⟨fun h => congrArg _ (Option.some.inj h), fun h => congrArg _ (Except.ok.inj h)⟩
  rw [get?_states, Option.bind_eq_some_iff]
  simp only [htoOption]

-- ======================================================== the campaign

structure Unmarked (m : Metadata) : Prop where
  started : m.isAnnotated startedMark = false
  acknowledged : m.isAnnotated acknowledgedMark = false
  finished : m.isAnnotated finishedMark = false

/-- What others ask of a member. -/
inductive Demand where
  | start (reason : String)
  | clear
  /-- A state in which the controller has done nothing yet. -/
  | apply (now : String) (s : DrainState) (h : s = .notDraining ∨ s = .draining)

def Demand.on : Demand → Metadata → Metadata
  | .start reason => Drain.start reason
  | .clear => Drain.clear
  | .apply now s _ => Drain.apply now s

/-- A demand leaves the state as it is, or puts it back to before the controller's part. -/
theorem Demand.state_on (d : Demand) {m : Metadata} {s : DrainState} (h : state m = .ok s) :
    state (d.on m) = .ok s ∨ state (d.on m) = .ok .notDraining
      ∨ state (d.on m) = .ok .draining := by
  cases d with
  | clear => exact Or.inr (Or.inl (state_clear m))
  | apply now t ht =>
      refine Or.inr ?_
      rcases ht with rfl | rfl
      · exact Or.inl (state_apply now _ m)
      · exact Or.inr (state_apply now _ m)
  | start reason =>
      have hstart := state_start reason h
      split at hstart
      · exact Or.inr (Or.inr hstart)
      · exact Or.inl hstart

theorem Demand.key_on (d : Demand) (m : Metadata) : (d.on m).key = m.key := by
  cases d with
  | start reason => rfl
  | clear => rfl
  | apply now s h => exact key_apply now s m

/-- A store, the moment of it that the controller looked at last, and all moments since then. -/
structure Campaign (β : Type) where
  memory : Memory β
  snapshot : Memory β
  /-- The oldest moment first, and the present one last. -/
  window : List (Memory β)

namespace Campaign

def start (m : Memory β) : Campaign β := ⟨m, m, [m]⟩

def goOn (c : Campaign β) (m : Memory β) : Campaign β :=
  { c with memory := m, window := c.window ++ [m] }

/-- What may happen next. -/
inductive Step (c : Campaign β) : Campaign β → Prop
  /-- The store begins or ceases to refuse calls. -/
  | fail (f : Memory.Failures) : Step c (c.goOn (c.memory.under f))
  | create {o : Object β} (h : Unmarked o.metadata) : Step c (c.goOn (c.memory.create o).2)
  | delete (k : Key) : Step c (c.goOn (c.memory.delete k).2)
  /-- Someone makes a demand of a member that they have just read. -/
  | change {k : Key} {o : Object β} (d : Demand) (h : c.memory.object? k = some o) :
      Step c (c.goOn (c.memory.replace (o.modifyMetadata d.on)).2)
  /-- The controller looks at a moment, and never again at one before it. -/
  | look {front rest : List (Memory β)} {seen : Memory β}
      (h : c.window = front ++ seen :: rest) : Step c ⟨c.memory, seen, seen :: rest⟩
  /-- The controller writes a next step of the moment that it looked at. -/
  | write (now : String) {k : Key} {s : DrainState}
      (h : (k, s) ∈ (Snapshot.group c.snapshot.objects).transitions.toList) :
      Step c (c.goOn (writeState now c.snapshot.objects k s c.memory).2)

/-- The writes of a pass over the moment that was looked at are steps, whichever are made. -/
theorem exists_run_writeStates (now : String) (c : Campaign β) (steps : List (Key × DrainState))
    (h : ∀ e ∈ steps, e ∈ (Snapshot.group c.snapshot.objects).transitions.toList) :
    ∃ c', Relation.ReflTransGen Step c c'
      ∧ c'.memory = (writeStates now c.snapshot.objects steps c.memory).2 := by
  induction steps generalizing c with
  | nil => exact ⟨c, .refl, rfl⟩
  | cons e rest ih =>
      have hstep := Step.write (c := c) now (h e List.mem_cons_self)
      obtain ⟨c', hrun, hc'⟩ := ih (c.goOn (writeState now c.snapshot.objects e.1 e.2 c.memory).2)
        fun e' he' => h e' (List.mem_cons_of_mem _ he')
      exact ⟨c', hrun.head hstep, hc'⟩

/-- A whole pass over a moment since the last look is a run of steps. -/
theorem exists_run_pass (now : String) (c : Campaign β) {front rest : List (Memory β)}
    {seen : Memory β} (h : c.window = front ++ seen :: rest) :
    ∃ c', Relation.ReflTransGen Step c c' ∧ c'.memory = (pass now seen.objects c.memory).2 := by
  obtain ⟨c', hrun, hc'⟩ := exists_run_writeStates now ⟨c.memory, seen, seen :: rest⟩
    (Snapshot.group seen.objects).transitions.toList fun _ he => he
  exact ⟨c', hrun.head (.look h), hc'⟩

end Campaign

theorem writeState_snd {now : String} {snapshot : Snapshot β} {k : Key} {s : DrainState}
    {m : Memory β} {o : Object β} (h : snapshot.get? k = some o) :
    (writeState now snapshot k s m).2 = (m.replace (o.modifyMetadata (apply now s))).2 := by
  unfold writeState
  rw [h]
  dsimp only
  split <;> next heq => rw [heq]

-- ======================================================= the invariant

/-- From this group nobody but `id` can get leave. -/
def Group.Keeps {ι : Type} [Ord ι] (g : Group ι) (id : ι) : Prop :=
  g.isBlocked = true ∨ g.firstAcknowledged = some id

/-- A moment since the last look and a later one. -/
structure Leads (m m' : Memory β) : Prop where
  since : Since m m'
  /-- Who is acknowledged later had been asked to drain, and not only in another life. -/
  asked : ∀ k, (states m').get? k = some .acknowledged →
    ∃ s, (states m).get? k = some s ∧ s ≠ .notDraining

theorem Leads.refl (m : Memory β) : Leads m m := ⟨.refl m, fun _ hk => ⟨_, hk, nofun⟩⟩

/-- What holds all along a campaign. -/
structure Campaign.Safe (c : Campaign β) : Prop where
  orderly : Orderly c.memory
  soundNow : c.memory.Sound
  sound : ∀ m ∈ c.window, m.Sound
  seen : c.snapshot ∈ c.window
  ordered : c.window.Pairwise Leads
  fromLook : ∀ m ∈ c.window, Leads c.snapshot m
  toNow : ∀ m ∈ c.window, Leads m c.memory
  keeps : ∀ k, (states c.memory).get? k = some .finished → ∀ m ∈ c.window, (states m).Keeps k

namespace Campaign.Safe

theorem start {m : Memory β} (hm : m.Sound) (h : Orderly m) : (Campaign.start m).Safe where
  orderly := h
  soundNow := hm
  sound := fun _ hm' => List.mem_singleton.1 hm' ▸ hm
  seen := List.mem_singleton_self m
  ordered := List.pairwise_singleton _ _
  fromLook := fun _ hm' => List.mem_singleton.1 hm' ▸ Leads.refl m
  toNow := fun _ hm' => List.mem_singleton.1 hm' ▸ Leads.refl m
  keeps := fun _ hk _ hm' =>
    Or.inl (List.mem_singleton.1 hm' ▸ Group.isBlocked_of_finished hk)

variable {c : Campaign β}

theorem look (hs : c.Safe) {front rest : List (Memory β)} {seen : Memory β}
    (h : c.window = front ++ seen :: rest) : Campaign.Safe ⟨c.memory, seen, seen :: rest⟩ := by
  have hsub : ∀ m ∈ seen :: rest, m ∈ c.window := fun m hm =>
    h ▸ List.mem_append_right front hm
  have hordered : (seen :: rest).Pairwise Leads :=
    (List.pairwise_append.1 (h ▸ hs.ordered)).2.1
  refine ⟨hs.orderly, hs.soundNow, fun m hm => hs.sound m (hsub m hm), List.mem_cons_self,
    hordered, fun m hm => ?_, fun m hm => hs.toNow m (hsub m hm),
    fun k hk m hm => hs.keeps k hk m (hsub m hm)⟩
  rcases List.mem_cons.1 hm with rfl | hm
  · exact .refl m
  · exact (List.pairwise_cons.1 hordered).1 m hm

/-- Going on keeps the invariant if whoever is acknowledged anew was draining ever since the look,
and whoever has leave anew is the one that all moments since the look agree on. -/
theorem goOn (hs : c.Safe) {m' : Memory β} (hsound : m'.Sound) (hsince : Since c.memory m')
    (horderly : Orderly m')
    (hack : ∀ k, (states m').get? k = some .acknowledged →
      (states c.memory).get? k = some .acknowledged
        ∨ ∀ m ∈ c.window, (states m).get? k = some .draining)
    (hfin : ∀ k, (states m').get? k = some .finished →
      (states c.memory).get? k = some .finished ∨ ∀ m ∈ c.window, (states m).Keeps k) :
    (c.goOn m').Safe := by
  have hleads : ∀ m ∈ c.window, Leads m m' := by
    intro m hm
    refine ⟨(hs.toNow m hm).since.trans hsince, fun k hk => ?_⟩
    rcases hack k hk with hold | hall
    · exact (hs.toNow m hm).asked k hold
    · exact ⟨_, hall m hm, nofun⟩
  -- a moment of the new window is one of the old window, or the new moment
  have hcases : ∀ {m}, m ∈ c.window ++ [m'] → m ∈ c.window ∨ m = m' := fun hm =>
    (List.mem_append.1 hm).imp_right List.mem_singleton.1
  refine ⟨horderly, hsound, fun m hm => ?_, List.mem_append_left _ hs.seen, ?_, fun m hm => ?_,
    fun m hm => ?_, fun k hk m hm => ?_⟩
  · rcases hcases hm with hm | rfl
    · exact hs.sound m hm
    · exact hsound
  · refine List.pairwise_append.2 ⟨hs.ordered, List.pairwise_singleton _ _, fun m hm x hx => ?_⟩
    exact List.mem_singleton.1 hx ▸ hleads m hm
  · rcases hcases hm with hm | rfl
    · exact hs.fromLook m hm
    · exact hleads _ hs.seen
  · rcases hcases hm with hm | rfl
    · exact hleads m hm
    · exact .refl m
  · rcases hcases hm with hm | rfl
    · exact (hfin k hk).elim (fun hold => hs.keeps k hold m hm) fun hall => hall m hm
    · exact Or.inl (Group.isBlocked_of_finished hk)

-- ==================================================== steps of others

/-- Others keep the invariant: where they change the state of a member, they put it back to before
the controller's part. -/
theorem goOn_others (hs : c.Safe) {m' : Memory β} (hsound : m'.Sound)
    (hsince : Since c.memory m')
    (h : ∀ {k o'}, m'.object? k = some o' →
      (∃ o, c.memory.object? k = some o ∧ state o'.metadata = state o.metadata)
        ∨ state o'.metadata = .ok .notDraining ∨ state o'.metadata = .ok .draining) :
    (c.goOn m').Safe := by
  have hold : ∀ {k s}, (states m').get? k = some s → s ≠ .notDraining → s ≠ .draining →
      (states c.memory).get? k = some s := by
    intro k s hk hnd hd
    obtain ⟨o', ho', hs'⟩ := get?_states_eq_some.1 hk
    rcases h ho' with ⟨o, ho, heq⟩ | heq | heq
    · exact get?_states_eq_some.2 ⟨o, ho, heq ▸ hs'⟩
    · rw [hs'] at heq
      exact absurd (Except.ok.inj heq) hnd
    · rw [hs'] at heq
      exact absurd (Except.ok.inj heq) hd
  -- so nobody is acknowledged anew, and nobody has leave anew
  refine hs.goOn hsound hsince ⟨fun ho' => ?_, fun a b ha hb => ?_⟩
    (fun k hk => Or.inl (hold hk nofun nofun)) fun k hk => Or.inl (hold hk nofun nofun)
  · rcases h ho' with ⟨o, ho, heq⟩ | heq | heq
    · exact heq ▸ hs.orderly.valid ho
    · exact ⟨_, heq⟩
    · exact ⟨_, heq⟩
  · exact hs.orderly.single a b (hold ha nofun nofun) (hold hb nofun nofun)

theorem idle (hs : c.Safe) : (c.goOn c.memory).Safe :=
  hs.goOn_others hs.soundNow (.refl _) fun ho => Or.inl ⟨_, ho, rfl⟩

theorem create (hs : c.Safe) {o : Object β} (ho : Unmarked o.metadata) :
    (c.goOn (c.memory.create o).2).Safe := by
  have hnew : ∀ v u, state (o.asCreated v u).metadata = .ok .notDraining := by
    intro v u
    have heq : state (o.asCreated v u).metadata = state o.metadata := state_congr rfl rfl
    rw [heq, state, ho.started, ho.acknowledged, ho.finished]
    rfl
  refine hs.goOn_others (hs.soundNow.create o) (Memory.since_create _ o) fun {k o'} ho' => ?_
  by_cases hk : k = o.key
  · subst hk
    cases hfree : c.memory.object? o.key with
    | some holder =>
        -- the name is taken, and nothing happens
        rw [Memory.create_of_taken hfree, hfree] at ho'
        exact Or.inl ⟨holder, rfl, by rw [Option.some.inj ho']⟩
    | none =>
        rcases Memory.object?_create hfree with hnone | ⟨v, u, hsome⟩
        · rw [hnone] at ho'
          cases ho'
        · obtain rfl := Option.some.inj (hsome.symm.trans ho')
          exact Or.inr (Or.inl (hnew v u))
  · rw [(Memory.agreesExcept_create _ o).object? hk] at ho'
    exact Or.inl ⟨o', ho', rfl⟩

theorem delete (hs : c.Safe) (k : Key) : (c.goOn (c.memory.delete k).2).Safe := by
  refine hs.goOn_others (hs.soundNow.delete k) (Memory.since_delete _ k) fun {k' o'} ho' => ?_
  refine Or.inl ⟨o', ?_, rfl⟩
  by_cases hk : k' = k
  · subst hk
    rw [Memory.object?_delete] at ho'
    split at ho'
    · exact ho'
    · cases ho'
  · rwa [(Memory.agreesExcept_delete _ k).object? hk] at ho'

theorem change (hs : c.Safe) {k : Key} {o : Object β} (d : Demand)
    (ho : c.memory.object? k = some o) :
    (c.goOn (c.memory.replace (o.modifyMetadata d.on)).2).Safe := by
  have hkey : (o.modifyMetadata d.on).key = k := (d.key_on o.metadata).trans (hs.soundNow.keyed ho)
  have hversion : (o.modifyMetadata d.on).key ≠ k →
      (o.modifyMetadata d.on).metadata.resourceVersion = o.metadata.resourceVersion :=
    fun hne => absurd hkey hne
  obtain ⟨s, hvalid⟩ := hs.orderly.valid ho
  refine hs.goOn_others (hs.soundNow.replace _) (Memory.since_replace _ _) fun {k' o'} ho' => ?_
  by_cases hk : k' = k
  · subst hk
    -- the write is refused, or what is stored is the demand at a new version
    rcases Memory.object?_replace_of_version hs.soundNow ho hversion with hkeep | ⟨v, hnew⟩
    · obtain rfl := Option.some.inj (hkeep.symm.trans ho')
      exact Or.inl ⟨o, ho, rfl⟩
    · obtain rfl := Option.some.inj (hnew.symm.trans ho')
      have hstate : state ((o.modifyMetadata d.on).atVersion v).metadata
          = state (d.on o.metadata) := state_congr rfl rfl
      rw [hstate]
      rcases d.state_on hvalid with heq | hback
      · exact Or.inl ⟨o, ho, heq.trans hvalid.symm⟩
      · exact Or.inr hback
  · rw [(Memory.agreesExcept_replace_of_version hs.soundNow ho hversion).object? hk] at ho'
    exact Or.inl ⟨o', ho', rfl⟩

-- ====================================================== the controller

/-- Who gets leave is the one that every moment since the look agrees on, and so nobody else has
it. -/
theorem promote (hs : c.Safe) {k : Key} (hfree : (states c.snapshot).isBlocked = false)
    (hfirst : (states c.snapshot).firstAcknowledged = some k)
    (hwaits : ∀ m ∈ c.window, (states m).get? k = some .acknowledged) :
    (∀ m ∈ c.window, (states m).Keeps k)
      ∧ ∀ x, (states c.memory).get? x = some .finished → x = k := by
  constructor
  · intro m hm
    exact Or.inr (Group.firstAcknowledged_of_asked hfree hfirst (hwaits m hm)
      (hs.fromLook m hm).asked)
  · intro x hx
    rcases hs.keeps x hx _ hs.seen with hblock | hx'
    · rw [hfree] at hblock
      cases hblock
    · exact Option.some.inj (hx'.symm.trans hfirst)

theorem land (hs : c.Safe) {k : Key} {s : DrainState} {o holder : Object β}
    (hstep : (states c.snapshot).transitions.get? k = some s)
    (ho : c.snapshot.object? k = some o) (hholder : c.memory.object? k = some holder)
    (hversion : o.metadata.resourceVersion = holder.metadata.resourceVersion) {m' : Memory β}
    (hsound : m'.Sound) (hsince : Since c.memory m')
    (hself : ∀ {o'}, m'.object? k = some o' → state o'.metadata = .ok s)
    (hother : ∀ {k'}, k' ≠ k → m'.object? k' = c.memory.object? k') : (c.goOn m').Safe := by
  -- the step was computed from the very object that it lands on, which was there ever since
  have hstate : ∀ {t}, (states c.snapshot).get? k = some t →
      ∀ m ∈ c.window, (states m).get? k = some t := by
    intro t ht m hm
    obtain ⟨o', ho', hs'⟩ := get?_states_eq_some.1 ht
    obtain rfl := Option.some.inj (ho.symm.trans ho')
    have hthere := (hs.fromLook m hm).since.between (hs.toNow m hm).since (hs.sound _ hs.seen)
      ho hholder hversion.symm
    exact get?_states_eq_some.2 ⟨o, hthere, hs'⟩
  have hnew : ∀ {k' t}, (states m').get? k' = some t →
      (k' = k ∧ t = s) ∨ (states c.memory).get? k' = some t := by
    intro k' t hk'
    obtain ⟨o', ho', hs'⟩ := get?_states_eq_some.1 hk'
    by_cases hk : k' = k
    · subst hk
      exact Or.inl ⟨rfl, Except.ok.inj (hs'.symm.trans (hself ho'))⟩
    · exact Or.inr (get?_states_eq_some.2 ⟨o', hother hk ▸ ho', hs'⟩)
  have hvalid : ∀ {k' o'}, m'.object? k' = some o' → ∃ s, state o'.metadata = .ok s := by
    intro k' o' ho'
    by_cases hk : k' = k
    · subst hk
      exact ⟨s, hself ho'⟩
    · exact hs.orderly.valid (hother hk ▸ ho')
  rcases Group.transitions_cases hstep with ⟨hdraining, rfl⟩ | ⟨hfree, hfirst, rfl⟩
  · -- nobody has leave who had not had it
    have hfin : ∀ {x}, (states m').get? x = some .finished →
        (states c.memory).get? x = some .finished := fun hx =>
      (hnew hx).resolve_left fun h => nomatch h.2
    refine hs.goOn hsound hsince ⟨hvalid, fun a b ha hb => ?_⟩ (fun x hx => ?_) fun x hx =>
      Or.inl (hfin hx)
    · exact hs.orderly.single a b (hfin ha) (hfin hb)
    · rcases hnew hx with ⟨rfl, -⟩ | hold
      · exact Or.inr (hstate hdraining)
      · exact Or.inl hold
  · -- nobody waits who had not waited, and everybody with leave is `k`
    have hwaits := hstate (Group.firstAcknowledged_spec hfirst).1
    obtain ⟨hkeeps, honly⟩ := hs.promote hfree hfirst hwaits
    have hfin : ∀ x, (states m').get? x = some .finished → x = k := fun x hx =>
      (hnew hx).elim (·.1) (honly x)
    refine hs.goOn hsound hsince ⟨hvalid, fun a b ha hb => ?_⟩ (fun x hx => ?_) fun x hx => ?_
    · exact (hfin a ha).trans (hfin b hb).symm
    · exact Or.inl ((hnew hx).resolve_left fun h => nomatch h.2)
    · exact Or.inr (hfin x hx ▸ hkeeps)

/-- Writing a step keeps the invariant, whether it lands or is refused. -/
theorem write (hs : c.Safe) (now : String) {k : Key} {s : DrainState}
    (hstep : (states c.snapshot).transitions.get? k = some s) :
    (c.goOn (writeState now c.snapshot.objects k s c.memory).2).Safe := by
  cases ho : c.snapshot.objects.get? k with
  | none =>
      have hnone : (writeState now c.snapshot.objects k s c.memory).2 = c.memory := by
        rw [writeState, ho]
      -- there was no such member, so nothing is tried
      rw [hnone]
      exact hs.idle
  | some o =>
      rw [writeState_snd ho]
      have hkey : (o.modifyMetadata (apply now s)).key = k :=
        (key_apply now s o.metadata).trans ((hs.sound _ hs.seen).keyed ho)
      have hsound := hs.soundNow.replace (o.modifyMetadata (apply now s))
      have hsince := Memory.since_replace c.memory (o.modifyMetadata (apply now s))
      have hother := Memory.agreesExcept_replace c.memory (o.modifyMetadata (apply now s))
      rcases c.memory.replace_cases (o.modifyMetadata (apply now s)) with
        ⟨e, -, h⟩ | ⟨-, -, h⟩ | ⟨-, -, h⟩ | ⟨-, ⟨holder, hholder, hversion⟩, h⟩
      · rw [h]
        exact hs.idle
      · rw [h]
        exact hs.idle
      · rw [h]
        exact hs.idle
      · rw [hkey] at hholder hother
        refine hs.land hstep ho hholder ((resourceVersion_apply now s _).symm.trans hversion)
          hsound hsince (fun {o'} ho' => ?_) fun hk => hother.object? hk
        rw [h, ← hkey] at ho'
        obtain rfl := Option.some.inj ((Memory.object?_put_self _ _).symm.trans ho')
        exact (state_congr rfl rfl).trans (state_apply now s o.metadata)

-- ============================================================ all runs

theorem step (hs : c.Safe) {c' : Campaign β} (h : Step c c') : c'.Safe := by
  cases h with
  | fail f =>
      exact hs.goOn_others (hs.soundNow.of_eq rfl rfl) ((Since.refl _).of_eq rfl rfl)
        fun ho => Or.inl ⟨_, ho, rfl⟩
  | create h => exact hs.create h
  | delete k => exact hs.delete k
  | change d h => exact hs.change d h
  | look h => exact hs.look h
  | write now h => exact hs.write now (SortedMap.get?_of_mem_toList h)

end Campaign.Safe

/-- However long a campaign is and whatever happens in it, at most one member has leave to go, and
no member's annotations get out of order. -/
theorem orderly_of_campaign {m : Memory β} (hm : m.Reachable) (h : Orderly m) {c : Campaign β}
    (hrun : Relation.ReflTransGen Campaign.Step (Campaign.start m) c) : Orderly c.memory := by
  have hsafe : c.Safe := by
    induction hrun with
    | refl => exact .start hm.sound h
    | tail _ hstep ih => exact ih.step hstep
  exact hsafe.orderly

-- ------------------------------------------------------- a campaign

def memberIn (name : String) (s : DrainState) : Object Unit :=
  ⟨apply "noon" s { Metadata.empty with name := some name, space := some "db" }, ()⟩

/-- A store with a member that nobody asked to drain, and one that waits for leave. -/
def pair : Memory Unit :=
  ((Memory.empty.seed (memberIn "a" .notDraining)).2.seed (memberIn "b" .acknowledged)).2

theorem orderly_pair : Orderly pair := by
  have hsome : ∀ e ∈ pair.objects.toList, (state e.2.metadata).toOption.isSome = true := by
    decide +kernel
  have hnone : ∀ e ∈ (states pair).toList, e.2 ≠ .finished := by decide +kernel
  refine ⟨fun {k o} ho => ?_, fun a b ha => ?_⟩
  · have hvalid := hsome _ (SortedMap.mem_toList_of_get? ho)
    cases hs : state o.metadata with
    | ok s => exact ⟨s, rfl⟩
    | error e =>
        rw [hs] at hvalid
        cases hvalid
  · exact absurd rfl (hnone _ (SortedMap.mem_toList_of_get? ha))

/-- The controller sees `b` wait, but the drain of `b` is taken back before it gives leave; then `b`
is removed and created again, and `a` is drained to the end. -/
theorem orderly_of_withdrawal :
    ∃ c : Campaign Unit, Relation.ReflTransGen Campaign.Step (Campaign.start pair) c
      ∧ (states c.memory).toList = [(⟨"db", "a"⟩, .finished), (⟨"db", "b"⟩, .notDraining)]
      ∧ Orderly c.memory := by
  have hreachable : pair.Reachable := .seed _ (.seed _ .empty)
  have hrun := Relation.ReflTransGen.refl (r := Campaign.Step) (a := Campaign.start pair)
  have hrun := hrun.tail (.change (k := ⟨"db", "b"⟩) .clear rfl)
  have hrun := hrun.tail (.write "noon" (k := ⟨"db", "b"⟩) (s := .finished) (by decide +kernel))
  have hrun := hrun.tail (.delete ⟨"db", "b"⟩)
  have hrun := hrun.tail (.create (o := memberIn "b" .notDraining) ⟨rfl, rfl, rfl⟩)
  have hrun := hrun.tail (.change (k := ⟨"db", "a"⟩) (.start "upgrade") rfl)
  have hrun := hrun.tail (.look rfl)
  have hrun := hrun.tail (.write "noon" (k := ⟨"db", "a"⟩) (s := .acknowledged) (by decide +kernel))
  have hrun := hrun.tail (.look rfl)
  have hrun := hrun.tail (.write "noon" (k := ⟨"db", "a"⟩) (s := .finished) (by decide +kernel))
  exact ⟨_, hrun, by decide +kernel, orderly_of_campaign hreachable orderly_pair hrun⟩

end ControlLoop.Drain
