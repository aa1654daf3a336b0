/-
The entry on a topic is told by the history of the topic.

# What is kept of a history

The history of a topic is its entry at first, if there is one, and then
the reports on it. All that is kept of it is one entry: the last report,
with the time at which the stretch of reports began that all have the
status of the last one. `Sums` says this of a history and an entry, with
the stretch as the longest one at the end of the history in which the
status does not change (`IsFinalStretch`). A report extends the stretch
or, with another status, begins a new one, and the entry follows in both
cases (`Sums.concat`); this is what every run of reports keeps
(`sums_find?_setEach`).

# Where the entries stand

A report on a topic that has an entry leaves all topics where they are,
and any other is appended. So the topics of the list are those that it
had, and then the new ones in the order in which they were first
reported (`map_topic_setEach`).
-/
import ControlLoop.Conditions
import Mathlib.Data.List.Induction
import Mathlib.Data.List.Nodup

namespace ControlLoop.Condition

-- ======================================================== the vocabulary

/-- A list of conditions after reports, one after the other. -/
def setEach (cs reports : List Condition) : List Condition :=
  reports.foldl (fun cs c => set c cs) cs

/-- The entry on a topic at first, if there is one, and then the reports on it. -/
def history (cs reports : List Condition) (topic : String) : List Condition :=
  (find? topic cs).toList ++ reports.filter (·.topic = topic)

/-- The topics that have no entry at first, in the order of the first reports on them. -/
def newTopics (cs reports : List Condition) : List String :=
  ((reports.map (·.topic)).filter fun t => t ∉ cs.map (·.topic)).eraseDups

/-- All entries have one status. -/
def IsSteady (cs : List Condition) : Prop := ∀ c ∈ cs, ∀ c' ∈ cs, c.status = c'.status

/-- The longest stretch at the end of a history in which the status does not change. -/
structure IsFinalStretch (history stretch : List Condition) : Prop where
  suffix : stretch <:+ history
  steady : IsSteady stretch
  longest : ∀ other, other <:+ history → IsSteady other → other.length ≤ stretch.length

/-- An entry is what is kept of a history: the last of it, with the time at which the final stretch
began. -/
def Sums (history : List Condition) (entry : Condition) : Prop :=
  ∃ stretch first last, IsFinalStretch history stretch ∧ stretch.head? = some first
    ∧ history.getLast? = some last
    ∧ entry = { last with lastTransitionTime := first.lastTransitionTime }

variable {cs reports h stretch : List Condition} {c entry : Condition} {t : String}

-- ======================================================== final stretches

theorem isSteady_singleton (c : Condition) : IsSteady [c] := by
  intro a ha b hb
  rw [List.mem_singleton.1 ha, List.mem_singleton.1 hb]

theorem IsFinalStretch.singleton (c : Condition) : IsFinalStretch [c] [c] where
  suffix := List.suffix_refl _
  steady := isSteady_singleton c
  longest := fun _ hother _ => hother.length_le

/-- Where a history does not end in an entry of the same status, a new entry is a stretch of its
own. -/
theorem IsFinalStretch.begin (h : List Condition)
    (hc : ∀ last, h.getLast? = some last → last.status ≠ c.status) :
    IsFinalStretch (h ++ [c]) [c] where
  suffix := List.suffix_append h [c]
  steady := isSteady_singleton c
  longest := by
    intro other hother hsteady
    rcases List.suffix_concat_iff.1 hother with rfl | ⟨front, rfl, hfront⟩
    · exact Nat.zero_le _
    · -- anything longer would end with the last entry of the history
      rcases List.eq_nil_or_concat front with rfl | ⟨before, last, rfl⟩
      · exact Nat.le_refl _
      · obtain ⟨more, rfl⟩ := hfront
        refine absurd (hsteady last (by simp) c (by simp)) (hc last ?_)
        simp

/-- An entry of the same status makes the final stretch longer. -/
theorem IsFinalStretch.extend (hs : IsFinalStretch h stretch)
    (hc : ∀ a ∈ stretch, a.status = c.status) : IsFinalStretch (h ++ [c]) (stretch ++ [c]) where
  suffix := by
    obtain ⟨before, rfl⟩ := hs.suffix
    exact ⟨before, by rw [List.append_assoc]⟩
  steady := by
    have hall : ∀ a ∈ stretch ++ [c], a.status = c.status := by
      intro a ha
      rcases List.mem_append.1 ha with ha | ha
      · exact hc a ha
      · rw [List.mem_singleton.1 ha]
    intro a ha b hb
    rw [hall a ha, hall b hb]
  longest := by
    intro other hother hsteady
    rcases List.suffix_concat_iff.1 hother with rfl | ⟨front, rfl, hfront⟩
    · exact Nat.zero_le _
    · have hfrontSteady : IsSteady front := fun a ha b hb =>
        hsteady a (List.mem_append_left _ ha) b (List.mem_append_left _ hb)
      have hlength := hs.longest front hfront hfrontSteady
      simp only [List.length_append, List.length_singleton]
      omega

/-- The last entry of a history is in its final stretch. -/
theorem IsFinalStretch.mem_of_getLast? (hs : IsFinalStretch h stretch) {last : Condition}
    (hlast : h.getLast? = some last) : last ∈ stretch := by
  obtain ⟨before, rfl⟩ := hs.suffix
  rcases List.eq_nil_or_concat stretch with rfl | ⟨front, last', rfl⟩
  · -- the last entry alone would be a longer stretch
    obtain ⟨before', hbefore⟩ := List.getLast?_eq_some_iff.1 hlast
    have hlong := hs.longest [last] ⟨before', hbefore.symm⟩ (isSteady_singleton last)
    simp at hlong
  · have heq : last' = last := by simpa using hlast
    simp [heq]

-- ===================================================== what is kept of it

theorem Sums.singleton (c : Condition) : Sums [c] c :=
  ⟨[c], c, c, .singleton c, rfl, rfl, rfl⟩

/-- A report on the topic of an entry updates what is kept of the history. -/
theorem Sums.concat (hsums : Sums h entry) (hc : entry.topic = c.topic) :
    Sums (h ++ [c]) (entry.update c) := by
  obtain ⟨stretch, first, last, hs, hfirst, hlast, rfl⟩ := hsums
  have hmem : last ∈ stretch := hs.mem_of_getLast? hlast
  have htopic : last.topic = c.topic := hc
  by_cases hstatus : last.status = c.status
  · have hall : ∀ a ∈ stretch, a.status = c.status := fun a ha =>
      (hs.steady a ha last hmem).trans hstatus
    have hhead : (stretch ++ [c]).head? = some first := by
      rw [List.head?_append, hfirst]
      rfl
    refine ⟨stretch ++ [c], first, c, hs.extend hall, hhead, by simp, ?_⟩
    simp [update, hstatus, htopic]
  · refine ⟨[c], c, c, .begin h fun last' hlast' => ?_, rfl, by simp, ?_⟩
    · obtain rfl : last = last' := Option.some.inj (hlast.symm.trans hlast')
      exact hstatus
    · simp [update, hstatus, htopic]

-- ============================================================ one report

theorem find?_set (c : Condition) (cs : List Condition) (t : String) :
    find? t (set c cs)
      = if c.topic = t then some ((find? t cs).elim c (·.update c)) else find? t cs := by
  unfold find?
  induction cs with
  | nil => by_cases ht : c.topic = t <;> simp [set, ht]
  | cons old rest ih =>
      unfold set
      by_cases htopic : old.topic = c.topic
      · rw [if_pos htopic, List.find?_cons, List.find?_cons]
        have hupdate : (old.update c).topic = old.topic := rfl
        by_cases ht : c.topic = t <;> simp [hupdate, htopic, ht]
      · rw [if_neg htopic, List.find?_cons, List.find?_cons, ih]
        by_cases ht : c.topic = t
        · have hold : old.topic ≠ t := fun h => htopic (h.trans ht.symm)
          simp [ht, hold]
        · simp [ht]

theorem map_topic_set (c : Condition) (cs : List Condition) :
    (set c cs).map (·.topic)
      = if c.topic ∈ cs.map (·.topic) then cs.map (·.topic)
        else cs.map (·.topic) ++ [c.topic] := by
  induction cs with
  | nil => rfl
  | cons old rest ih =>
      unfold set
      by_cases htopic : old.topic = c.topic
      · rw [if_pos htopic, List.map_cons, List.map_cons, if_pos]
        · rfl
        · rw [htopic]
          exact List.mem_cons_self
      · rw [if_neg htopic, List.map_cons, ih, List.map_cons]
        by_cases hmem : c.topic ∈ rest.map (·.topic)
        · rw [if_pos hmem, if_pos (List.mem_cons_of_mem _ hmem)]
        · have hnot : c.topic ∉ old.topic :: rest.map (·.topic) := by
            rw [List.mem_cons, not_or]
            exact ⟨Ne.symm htopic, hmem⟩
          rw [if_neg hmem, if_neg hnot, List.cons_append]

theorem topic_of_find? (h : find? t cs = some c) : c.topic = t := by
  simpa using List.find?_some h

-- ========================================================== many reports

theorem setEach_concat (cs reports : List Condition) (c : Condition) :
    setEach cs (reports ++ [c]) = set c (setEach cs reports) :=
  List.foldl_concat ..

theorem history_concat (cs reports : List Condition) (c : Condition) (t : String) :
    history cs (reports ++ [c]) t
      = history cs reports t ++ if c.topic = t then [c] else [] := by
  unfold history
  rw [List.filter_append, ← List.append_assoc]
  by_cases ht : c.topic = t <;> simp [ht]

/-- A topic without a history has no entry, and the entry on any other one is what is kept of its
history. -/
theorem sums_find?_setEach (cs reports : List Condition) (t : String) :
    (history cs reports t = [] ∧ find? t (setEach cs reports) = none)
      ∨ ∃ entry, find? t (setEach cs reports) = some entry
        ∧ Sums (history cs reports t) entry := by
  induction reports using List.reverseRecOn with
  | nil =>
      show ((find? t cs).toList ++ [] = [] ∧ find? t cs = none)
        ∨ ∃ entry, find? t cs = some entry ∧ Sums ((find? t cs).toList ++ []) entry
      cases hfind : find? t cs with
      | none => exact Or.inl ⟨rfl, rfl⟩
      | some c => exact Or.inr ⟨c, rfl, .singleton c⟩
  | append_singleton reports c ih =>
      rw [setEach_concat, history_concat, find?_set]
      by_cases ht : c.topic = t
      · rw [if_pos ht, if_pos ht]
        rcases ih with ⟨hnil, hnone⟩ | ⟨entry, hentry, hsums⟩
        · rw [hnil, hnone]
          exact Or.inr ⟨c, rfl, .singleton c⟩
        · rw [hentry]
          exact Or.inr ⟨_, rfl, hsums.concat ((topic_of_find? hentry).trans ht.symm)⟩
      · rw [if_neg ht, if_neg ht, List.append_nil]
        exact ih

theorem eraseDups_concat (l : List String) (a : String) :
    (l ++ [a]).eraseDups = l.eraseDups ++ if a ∈ l then [] else [a] := by
  rw [List.eraseDups_append]
  by_cases ha : a ∈ l <;> simp [List.removeAll, List.eraseDups_cons, ha]

/-- A topic is new if it has no entry, neither at first nor from an earlier report. -/
theorem newTopics_concat (cs reports : List Condition) (c : Condition) :
    newTopics cs (reports ++ [c]) = newTopics cs reports
      ++ if c.topic ∈ cs.map (·.topic) ++ newTopics cs reports then [] else [c.topic] := by
  have hmem : c.topic ∈ cs.map (·.topic) ++ newTopics cs reports
      ↔ c.topic ∈ cs.map (·.topic)
        ∨ c.topic ∈ (reports.map (·.topic)).filter fun t => t ∉ cs.map (·.topic) := by
    rw [List.mem_append, newTopics, List.mem_eraseDups]
  rw [if_congr hmem rfl rfl]
  unfold newTopics
  rw [List.map_append, List.filter_append, List.map_singleton, List.filter_cons,
    List.filter_nil]
  by_cases hcs : c.topic ∈ cs.map (·.topic)
  · rw [if_neg (by simpa using hcs), if_pos (Or.inl hcs), List.append_nil, List.append_nil]
  · rw [if_pos (by simpa using hcs), eraseDups_concat, if_congr (or_iff_right hcs) rfl rfl]

/-- The topics after reports are those at first, and then the new ones as they were first told. -/
theorem map_topic_setEach (cs reports : List Condition) :
    (setEach cs reports).map (·.topic) = cs.map (·.topic) ++ newTopics cs reports := by
  induction reports using List.reverseRecOn with
  | nil =>
      show cs.map (·.topic) = cs.map (·.topic) ++ []
      rw [List.append_nil]
  | append_singleton reports c ih =>
      rw [setEach_concat, map_topic_set, newTopics_concat, ← List.append_assoc, ← ih]
      split
      · rw [List.append_nil]
      · rfl

theorem nodup_topics_setEach (hcs : (cs.map (·.topic)).Nodup) :
    ((setEach cs reports).map (·.topic)).Nodup := by
  induction reports using List.reverseRecOn with
  | nil => exact hcs
  | append_singleton reports c ih =>
      rw [setEach_concat, map_topic_set]
      split
      · exact ih
      · next hnew =>
        refine List.nodup_append.2 ⟨ih, List.nodup_singleton _, fun t ht t' ht' heq => ?_⟩
        rw [List.mem_singleton.1 ht'] at heq
        exact hnew (heq ▸ ht)

/-- The last entry of the history of a topic is the last report on it, if there is one. -/
theorem getLast?_history (cs : List Condition) {last : Condition}
    (hlast : (reports.filter (·.topic = t)).getLast? = some last) :
    (history cs reports t).getLast? = some last := by
  unfold history
  rw [List.getLast?_append, hlast]
  rfl

/-- What is kept of the history of a topic with reports is in the list. -/
theorem exists_find?_setEach (cs : List Condition) (ht : t ∈ reports.map (·.topic)) :
    ∃ stretch first last, IsFinalStretch (history cs reports t) stretch
      ∧ stretch.head? = some first ∧ (reports.filter (·.topic = t)).getLast? = some last
      ∧ find? t (setEach cs reports)
        = some { last with lastTransitionTime := first.lastTransitionTime } := by
  obtain ⟨c, hc, htopic⟩ := List.mem_map.1 ht
  have hmem : c ∈ reports.filter (·.topic = t) :=
    List.mem_filter.2 ⟨hc, decide_eq_true htopic⟩
  obtain ⟨last, hlast⟩ := Option.isSome_iff_exists.1
    (List.getLast?_isSome.2 (List.ne_nil_of_mem hmem))
  rcases sums_find?_setEach cs reports t with ⟨hnil, -⟩ | ⟨entry, hentry, hsums⟩
  · have hlast' := getLast?_history cs hlast
    rw [hnil] at hlast'
    cases hlast'
  · obtain ⟨stretch, first, last', hs, hfirst, hlast', rfl⟩ := hsums
    obtain rfl : last' = last :=
      Option.some.inj (hlast'.symm.trans (getLast?_history cs hlast))
    exact ⟨stretch, first, last', hs, hfirst, hlast, hentry⟩

theorem find?_setEach_of_notMem (cs : List Condition) (ht : t ∉ reports.map (·.topic)) :
    find? t (setEach cs reports) = find? t cs := by
  induction reports using List.reverseRecOn with
  | nil => rfl
  | append_singleton reports c ih =>
      rw [List.map_append, List.mem_append, not_or, List.map_singleton, List.mem_singleton] at ht
      rw [setEach_concat, find?_set, if_neg (Ne.symm ht.2), ih ht.1]

/-- In a list with one entry for each topic there is, after any reports, one entry for each topic:
those at first in their order, and then the new ones as they were first told. The entry on a topic
that was told is the last report on it, with the time at which the longest stretch of its history
began that ends with this report and has one status throughout. The entries on other topics are as
they were. -/
theorem honest_transitions (cs reports : List Condition) (hcs : (cs.map (·.topic)).Nodup) :
    ((setEach cs reports).map (·.topic)).Nodup
      ∧ (setEach cs reports).map (·.topic) = cs.map (·.topic) ++ newTopics cs reports
      ∧ (∀ t ∈ reports.map (·.topic), ∃ stretch first last,
        IsFinalStretch (history cs reports t) stretch ∧ stretch.head? = some first
          ∧ (reports.filter (·.topic = t)).getLast? = some last
          ∧ find? t (setEach cs reports)
            = some { last with lastTransitionTime := first.lastTransitionTime })
      ∧ ∀ t ∉ reports.map (·.topic), find? t (setEach cs reports) = find? t cs :=
  ⟨nodup_topics_setEach hcs, map_topic_setEach cs reports,
    fun _ ht => exists_find?_setEach cs ht, fun _ ht => find?_setEach_of_notMem cs ht⟩

/-- A topic that flips and comes back is timed by its last flip, and another one that is first told
in between stands behind it. -/
theorem honest_transitions_of_flip :
    let cs : List Condition := [⟨"Ready", "False", "t0", "Starting", "", none⟩]
    let reports : List Condition :=
      [⟨"Ready", "True", "t1", "Up", "", none⟩, ⟨"Blocked", "False", "t2", "Free", "", none⟩,
        ⟨"Ready", "False", "t3", "Down", "", none⟩, ⟨"Ready", "False", "t4", "Gone", "", some 7⟩]
    (cs.map (·.topic)).Nodup
      ∧ (setEach cs reports).map (·.topic) = ["Ready", "Blocked"]
      ∧ (∃ stretch first, IsFinalStretch (history cs reports "Ready") stretch
        ∧ stretch.head? = some first ∧ first.lastTransitionTime = "t3")
      ∧ find? "Ready" (setEach cs reports) = some ⟨"Ready", "False", "t3", "Gone", "", some 7⟩
      ∧ find? "Other" (setEach cs reports) = none := by
  intro cs reports
  have hcs : (cs.map (·.topic)).Nodup := by decide
  obtain ⟨-, htopics, htold, hother⟩ := honest_transitions cs reports hcs
  have hready : find? "Ready" (setEach cs reports)
      = some ⟨"Ready", "False", "t3", "Gone", "", some 7⟩ := by decide
  obtain ⟨stretch, first, last, hstretch, hfirst, -, hfind⟩ := htold "Ready" (by decide)
  refine ⟨hcs, htopics.trans (by decide), ⟨stretch, first, hstretch, hfirst, ?_⟩, hready,
    hother "Other" (by decide)⟩
  rw [hready] at hfind
  exact (congrArg lastTransitionTime (Option.some.inj hfind)).symm

end ControlLoop.Condition
