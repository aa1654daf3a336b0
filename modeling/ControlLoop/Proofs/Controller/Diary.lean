/-
What controllers and the resync loop did, in one diary.

# Two parties and a queue

A pass that is over sends one command to the loop, and the loop takes the
commands one after the other. The diary has both, passes and deeds of the
loop, in the order in which they were done (`Entry`). As the queue between
the two loses nothing and keeps its order, the commands that were sent
are those that were taken and then those that still wait, and at no moment
has more been taken than was sent (`InOrder`).

# Where a command is

So a command that was sent either still waits, and what waits behind it
are the commands of later passes; or it was taken later, and what was
taken since are commands of later passes (`waits_or_taken`). If those are
about other keys, the loop has done nothing about the key since but to
hand it out, and until then the key is due (`due_or_fired`).
-/
import ControlLoop.Controller
import ControlLoop.Proofs.Resync.Ledger

namespace ControlLoop.Controller

open Resync (Command Deed dueAfter deadline?)

/-- A pass over an object that has begun. -/
structure Visit where
  began : Nat
  object : Metadata
  pass : Pass

/-- What was done. -/
inductive Entry where
  /-- A pass came to its end. -/
  | passed (v : Visit) (report : Report)
  /-- The resync loop did something. -/
  | done (deed : Deed)

namespace Entry

def report? : Entry → Option Report
  | .passed _ report => some report
  | .done _ => none

/-- The command that was sent. -/
def sent? : Entry → Option Command
  | .passed _ report => some report.command
  | .done _ => none

def deed? : Entry → Option Deed
  | .passed _ _ => none
  | .done deed => some deed

/-- The command that was taken. -/
def taken? : Entry → Option Command
  | .done (.handled _ _ c) => some c
  | _ => none

end Entry

/-- The reports of the passes that are over, oldest first. -/
def reports (es : List Entry) : List Report := es.filterMap Entry.report?

/-- The commands that were sent, oldest first. -/
def sent (es : List Entry) : List Command := es.filterMap Entry.sent?

/-- The commands that the loop has taken, oldest first. -/
def taken (es : List Entry) : List Command := es.filterMap Entry.taken?

/-- What the loop did, oldest first. -/
def deeds (es : List Entry) : List Deed := es.filterMap Entry.deed?

section

variable (es es' : List Entry)

theorem reports_append : reports (es ++ es') = reports es ++ reports es' := List.filterMap_append

theorem sent_append : sent (es ++ es') = sent es ++ sent es' := List.filterMap_append

theorem taken_append : taken (es ++ es') = taken es ++ taken es' := List.filterMap_append

theorem deeds_append : deeds (es ++ es') = deeds es ++ deeds es' := List.filterMap_append

end

variable {es before after : List Entry}

theorem mem_deeds {deed : Deed} : deed ∈ deeds es ↔ .done deed ∈ es := by
  rw [deeds, List.mem_filterMap]
  constructor
  · rintro ⟨e, he, hdeed⟩
    cases e with
    | passed v report => cases hdeed
    | done deed' =>
        cases hdeed
        exact he
  · intro h
    exact ⟨_, h, rfl⟩

theorem mem_taken {c : Command} :
    c ∈ taken es ↔ ∃ now delay, .done (.handled now delay c) ∈ es := by
  rw [taken, List.mem_filterMap]
  constructor
  · rintro ⟨e, he, hc⟩
    cases e with
    | passed v report => cases hc
    | done deed =>
        cases deed with
        | handled now delay c' =>
            cases hc
            exact ⟨now, delay, he⟩
        | fired now keys => cases hc
  · rintro ⟨now, delay, h⟩
    exact ⟨_, h, rfl⟩

/-- A command that was taken is found in the diary, between what was taken before and after it. -/
theorem exists_taken {front back : List Command} {c : Command} (h : taken es = front ++ c :: back) :
    ∃ mid now delay later, es = mid ++ .done (.handled now delay c) :: later
      ∧ taken mid = front ∧ taken later = back := by
  obtain ⟨mid, rest, rfl, hmid, hrest⟩ := List.filterMap_eq_append_iff.1 h
  obtain ⟨quiet, e, later, rfl, hquiet, he, hlater⟩ := List.filterMap_eq_cons_iff.1 hrest
  cases e with
  | passed v report => cases he
  | done deed =>
      cases deed with
      | fired now keys => cases he
      | handled now delay c' =>
          obtain rfl := Option.some.inj he
          refine ⟨mid ++ quiet, now, delay, later, (List.append_assoc ..).symm, ?_, hlater⟩
          rw [taken, List.filterMap_append, hmid, List.filterMap_eq_nil_iff.2 hquiet,
            List.append_nil]

-- =============================================================== in order

/-- At no moment the loop had taken anything but the first commands that had been sent. -/
def InOrder (es : List Entry) : Prop :=
  ∀ front back, es = front ++ back → taken front <+: sent front

theorem inOrder_nil : InOrder [] := by
  intro front back heq
  obtain ⟨rfl, -⟩ := List.append_eq_nil_iff.1 heq.symm
  exact List.prefix_rfl

theorem InOrder.concat (h : InOrder es) {e : Entry} {rest : List Command}
    (hnew : sent (es ++ [e]) = taken (es ++ [e]) ++ rest) : InOrder (es ++ [e]) := by
  intro front back heq
  rcases List.eq_nil_or_concat back with rfl | ⟨back', last, rfl⟩
  · rw [List.append_nil] at heq
    subst heq
    exact ⟨rest, hnew.symm⟩
  · rw [List.concat_eq_append, ← List.append_assoc] at heq
    exact h front back' (List.append_inj' heq rfl).1

/-- A command that was sent waits in the queue, with nothing but the commands of later passes behind
it, or was taken later, and nothing but commands of later passes since. -/
theorem waits_or_taken {v : Visit} {report : Report} {waiting : List Command}
    (h : InOrder (before ++ .passed v report :: after))
    (hqueue : sent (before ++ .passed v report :: after)
      = taken (before ++ .passed v report :: after) ++ waiting) :
    (∃ front, waiting = front ++ report.command :: sent after)
      ∨ ∃ mid now delay later, after = mid ++ .done (.handled now delay report.command) :: later
        ∧ taken (before ++ mid) = sent before ∧ sent after = taken later ++ waiting := by
  obtain ⟨ahead, hahead⟩ := h before _ rfl
  have hsent : sent (before ++ .passed v report :: after)
      = sent before ++ report.command :: sent after := sent_append _ _
  have htaken : taken (before ++ .passed v report :: after) = taken before ++ taken after :=
    taken_append _ _
  -- what was ahead of the command when it was sent, it and the later ones were taken since or wait
  rw [hsent, htaken, ← hahead, List.append_assoc, List.append_assoc,
    List.append_cancel_left_eq] at hqueue
  rcases List.append_eq_append_iff.1 hqueue with ⟨w, hw, hrest⟩ | ⟨w, -, hrest⟩
  · cases w with
    | nil => exact Or.inl ⟨[], hrest.symm⟩
    | cons c w =>
        obtain ⟨hc, hlater⟩ := List.cons.inj hrest
        obtain ⟨mid, now, delay, later, rfl, hmid, rfl⟩ := exists_taken hw
        refine Or.inr ⟨mid, now, delay, later, by rw [hc], ?_, hlater⟩
        rw [taken_append, hmid, hahead]
  · exact Or.inl ⟨w, hrest⟩

-- ============================================================ and then

/-- A key that was queued, and about which the loop has taken no command since, is due or was handed
out. -/
theorem due_or_fired {now at_ : Nat} {delay : Option Duration} {k : Key}
    (hdelay : delay.bind (deadline? now) = some at_)
    (hquiet : ∀ c ∈ taken after, c.key ≠ k) :
    dueAfter (deeds (before ++ .done (.handled now delay (.enqueue k)) :: after)) k = some at_
      ∨ ∃ then_ keys, .done (.fired then_ keys) ∈ after ∧ k ∈ keys := by
  by_cases hfired : ∃ then_ keys, .done (.fired then_ keys) ∈ after ∧ k ∈ keys
  · exact Or.inr hfired
  · refine Or.inl ?_
    have hback : ∀ deed ∈ deeds after, ¬ deed.IsAbout k := by
      intro deed hmem habout
      cases deed with
      | handled then_ delay' c =>
          exact hquiet c (mem_taken.2 ⟨then_, delay', mem_deeds.1 hmem⟩) habout
      | fired then_ keys => exact hfired ⟨then_, keys, mem_deeds.1 hmem, habout⟩
    have hsplit : deeds (before ++ .done (.handled now delay (.enqueue k)) :: after)
        = (deeds before ++ [.handled now delay (.enqueue k)]) ++ deeds after := by
      rw [deeds_append, List.append_assoc]
      rfl
    rw [hsplit, Resync.dueAfter_append_of_quiet hback, Resync.dueAfter_concat, Deed.due, if_pos rfl,
      hdelay]

/-- A key that was dropped, and that the loop was not asked to queue since, is not due. -/
theorem not_due_of_dropped {now : Nat} {delay : Option Duration} {k : Key}
    (hquiet : .enqueue k ∉ taken after) :
    dueAfter (deeds (before ++ .done (.handled now delay (.dequeue k)) :: after)) k = none := by
  have hsplit : deeds (before ++ .done (.handled now delay (.dequeue k)) :: after)
      = deeds before ++ .handled now delay (.dequeue k) :: deeds after := deeds_append _ _
  rw [hsplit]
  refine Resync.dueAfter_of_dropped fun deed hmem => ?_
  cases deed with
  | handled then_ delay' c =>
      refine decide_eq_false fun heq => hquiet ?_
      exact mem_taken.2 ⟨then_, delay', heq ▸ mem_deeds.1 hmem⟩
  | fired then_ keys => rfl

end ControlLoop.Controller
