/-
The digest of a desired state depends on the last contribution under
each name, as far as it is not empty.

# What counts

A contribution is empty (`Contribution.IsEmpty`), has a digest of its
own (`Contribution.HasDigest`), or cannot be written. An empty one
leaves the state as it is, and another one takes the place of whatever
its name had contributed before. So under each name the state holds the
digest of the last contribution that was not empty (`IsLast`,
`get?_addEach`), and what this does not tell apart is the same state:
empty contributions may come and go (`addEach_of_isEmpty`) and those
under different names may trade places (`addEach_swap`).

# What is lost in the end

The composed digest is that of the map from names to digests. A digest
has no zero in it (`zero_notMem_of_hasDigest`), so with names that have
none the bytes that are digested tell all different maps apart
(`digest_of_last_contributions`).
-/
import ControlLoop.Digest.DesiredState
import ControlLoop.Proofs.Digest.Collections
import ControlLoop.Proofs.Digest.Digits

namespace ControlLoop

-- ==================================================== what is empty

/-- The values that count as nothing. -/
inductive Json.IsVoid : Json → Prop
  | null : IsVoid .null
  | no : IsVoid (.bool false)
  | zero : IsVoid (.int 0)
  /-- Either of the two floating zeros. -/
  | floatingZero (negative : Bool) (exponent : Int) : IsVoid (.float ⟨negative, 0, exponent⟩)
  | string : IsVoid (.string "")
  | array : IsVoid (.array [])
  | object : IsVoid (.object [])

theorem Json.isVoid_iff {j : Json} : j.isVoid = true ↔ j.IsVoid := by
  constructor
  · intro h
    cases j with
    | null => exact .null
    | bool b =>
        cases b with
        | false => exact .no
        | true => cases h
    | int n =>
        obtain rfl := of_decide_eq_true h
        exact .zero
    | float x =>
        obtain ⟨negative, significand, exponent⟩ := x
        obtain rfl : significand = 0 := of_decide_eq_true h
        exact .floatingZero negative exponent
    | string s =>
        obtain rfl := String.isEmpty_iff.1 h
        exact .string
    | array items =>
        obtain rfl := List.isEmpty_iff.1 h
        exact .array
    | object fields =>
        obtain rfl := List.isEmpty_iff.1 h
        exact .object
  · intro h
    cases h <;> rfl

namespace Contribution

/-- Contributions that are skipped. -/
inductive IsEmpty : Contribution → Prop
  | text : IsEmpty (.text "")
  | set : IsEmpty (.set [])
  | list : IsEmpty (.list [])
  | map : IsEmpty (.map ∅)
  | value {v : Serial} {j : Json} (hj : v.toJson = .ok j) (hvoid : j.IsVoid) : IsEmpty (.value v)

/-- The digest of a contribution that is not empty. -/
inductive HasDigest : Contribution → String → Prop
  | text {t : String} (ht : t ≠ "") : HasDigest (.text t) (Digest.ofSequence [t])
  | set {values : List String} (hvalues : values ≠ []) :
      HasDigest (.set values) (Digest.ofSet values)
  | list {values : List String} (hvalues : values ≠ []) :
      HasDigest (.list values) (Digest.ofSequence values)
  | map {m : TextMap} (hm : m ≠ ∅) : HasDigest (.map m) (Digest.ofMap m)
  | value {v : Serial} {j : Json} (hj : v.toJson = .ok j) (hvoid : ¬j.IsVoid) :
      HasDigest (.value v) (Digest.ofSequence [j.text])

/-- Nothing but a value can fail to be written. -/
def IsWritable (c : Contribution) : Prop := ∀ v, c = .value v → ∃ j, v.toJson = .ok j

theorem digest?_of_isEmpty {c : Contribution} (h : c.IsEmpty) : c.digest? = .ok none := by
  cases h with
  | value hj hvoid =>
      simp only [digest?, hj, bind, Except.bind, Json.isVoid_iff.2 hvoid, if_true]
  | _ => rfl

theorem digest?_of_hasDigest {c : Contribution} {digest : String} (h : c.HasDigest digest) :
    c.digest? = .ok (some digest) := by
  cases h with
  | text ht => rw [digest?, if_neg (mt String.isEmpty_iff.1 ht)]
  | set hvalues => rw [digest?, if_neg (mt List.isEmpty_iff.1 hvalues)]
  | list hvalues => rw [digest?, if_neg (mt List.isEmpty_iff.1 hvalues)]
  | map hm =>
      rw [digest?, if_neg]
      exact fun hempty => hm (SortedMap.eq_of_entries (List.isEmpty_iff.1 hempty))
  | value hj hvoid =>
      simp only [digest?, hj, bind, Except.bind, if_neg (mt Json.isVoid_iff.1 hvoid)]

/-- What can be written is empty or has a digest. -/
theorem IsWritable.isEmpty_or {c : Contribution} (h : c.IsWritable) :
    c.IsEmpty ∨ ∃ digest, c.HasDigest digest := by
  cases c with
  | text t =>
      by_cases ht : t = ""
      · exact Or.inl (ht ▸ .text)
      · exact Or.inr ⟨_, .text ht⟩
  | set values =>
      by_cases hvalues : values = []
      · exact Or.inl (hvalues ▸ .set)
      · exact Or.inr ⟨_, .set hvalues⟩
  | list values =>
      by_cases hvalues : values = []
      · exact Or.inl (hvalues ▸ .list)
      · exact Or.inr ⟨_, .list hvalues⟩
  | map m =>
      by_cases hm : m = ∅
      · exact Or.inl (hm ▸ .map)
      · exact Or.inr ⟨_, .map hm⟩
  | value v =>
      obtain ⟨j, hj⟩ := h v rfl
      by_cases hvoid : j.IsVoid
      · exact Or.inl (.value hj hvoid)
      · exact Or.inr ⟨_, .value hj hvoid⟩

theorem HasDigest.unique {c : Contribution} {digest digest' : String} (h : c.HasDigest digest)
    (h' : c.HasDigest digest') : digest = digest' :=
  Option.some.inj (Except.ok.inj ((digest?_of_hasDigest h).symm.trans (digest?_of_hasDigest h')))

theorem HasDigest.not_isEmpty {c : Contribution} {digest : String} (h : c.HasDigest digest) :
    ¬c.IsEmpty := fun hempty =>
  Option.some_ne_none digest
    (Except.ok.inj ((digest?_of_hasDigest h).symm.trans (digest?_of_isEmpty hempty)))

theorem zero_notMem_of_hasDigest {c : Contribution} {digest : String} (h : c.HasDigest digest) :
    Digest.zero ∉ digest.toList := by
  obtain ⟨bytes, rfl⟩ : ∃ bytes, digest = Digest.ofBytes bytes := by
    cases h <;> exact ⟨_, rfl⟩
  intro hzero
  obtain ⟨n, hn, hdigit⟩ := Digest.exists_digit_of_mem_ofBytes hzero
  have hdigits : ∀ n < 16, Digest.zero ≠ Nat.digitChar n := by decide
  exact hdigits n hn hdigit

end Contribution

-- ================================================= what is last of a name

/-- All contributions under a name are empty. -/
def Silent (cs : List (String × Contribution)) (name : String) : Prop :=
  ∀ e ∈ cs, e.1 = name → e.2.IsEmpty

/-- The digest is that of the last contribution under a name that is not empty. -/
def IsLast (cs : List (String × Contribution)) (name digest : String) : Prop :=
  ∃ before c after, cs = before ++ (name, c) :: after ∧ c.HasDigest digest ∧ Silent after name

theorem silent_cons {e : String × Contribution} {cs : List (String × Contribution)}
    {name : String} : Silent (e :: cs) name ↔ (e.1 = name → e.2.IsEmpty) ∧ Silent cs name :=
  List.forall_mem_cons

theorem isLast_cons {e : String × Contribution} {cs : List (String × Contribution)}
    {name digest : String} : IsLast (e :: cs) name digest
      ↔ IsLast cs name digest ∨ (e.1 = name ∧ e.2.HasDigest digest ∧ Silent cs name) := by
  constructor
  · rintro ⟨before, c, after, heq, hdigest, hsilent⟩
    cases before with
    | nil =>
        obtain ⟨rfl, rfl⟩ := List.cons.inj heq
        exact Or.inr ⟨rfl, hdigest, hsilent⟩
    | cons e' before =>
        obtain ⟨rfl, rfl⟩ := List.cons.inj heq
        exact Or.inl ⟨before, c, after, rfl, hdigest, hsilent⟩
  · rintro (⟨before, c, after, rfl, hdigest, hsilent⟩ | ⟨rfl, hdigest, hsilent⟩)
    · exact ⟨e :: before, c, after, rfl, hdigest, hsilent⟩
    · exact ⟨[], e.2, cs, rfl, hdigest, hsilent⟩

-- ======================================================== what is added

namespace DesiredState

variable {cs : List (String × Contribution)} {name digest : String} {c : Contribution}

theorem addEach_cons_of_isEmpty (d : DesiredState) (h : c.IsEmpty) :
    d.addEach ((name, c) :: cs) = d.addEach cs := by
  have hadd : d.add name c = .ok d := by
    rw [add, Contribution.digest?_of_isEmpty h]
    rfl
  rw [addEach, hadd]

theorem addEach_cons_of_hasDigest (d : DesiredState) (h : c.HasDigest digest) :
    d.addEach ((name, c) :: cs) = addEach ⟨d.items.insert name digest⟩ cs := by
  have hadd : d.add name c = .ok ⟨d.items.insert name digest⟩ := by
    rw [add, Contribution.digest?_of_hasDigest h]
    rfl
  rw [addEach, hadd]

theorem addEach_snd (d : DesiredState) (hcs : ∀ e ∈ cs, e.2.IsWritable) :
    (d.addEach cs).2 = none := by
  induction cs generalizing d with
  | nil => rfl
  | cons e rest ih =>
      obtain ⟨hwritable, hrest⟩ := List.forall_mem_cons.1 hcs
      rcases hwritable.isEmpty_or with hempty | ⟨digest, hdigest⟩
      · rw [addEach_cons_of_isEmpty d hempty]
        exact ih d hrest
      · rw [addEach_cons_of_hasDigest d hdigest]
        exact ih _ hrest

/-- Under each name there is the digest of its last contribution that is not empty, or, where there
is none, what was there before. -/
theorem get?_addEach (d : DesiredState) (hcs : ∀ e ∈ cs, e.2.IsWritable) :
    (d.addEach cs).1.items.get? name = some digest
      ↔ IsLast cs name digest ∨ (Silent cs name ∧ d.items.get? name = some digest) := by
  induction cs generalizing d with
  | nil =>
      constructor
      · intro h
        exact Or.inr ⟨List.forall_mem_nil _, h⟩
      · rintro (⟨before, c, after, heq, -⟩ | ⟨-, h⟩)
        · cases before <;> cases heq
        · exact h
  | cons e rest ih =>
      obtain ⟨hwritable, hrest⟩ := List.forall_mem_cons.1 hcs
      rw [isLast_cons, silent_cons]
      rcases hwritable.isEmpty_or with hempty | ⟨own, hown⟩
      · rw [addEach_cons_of_isEmpty d hempty, ih d hrest]
        have hnot : ¬e.2.HasDigest digest := fun hdigest => hdigest.not_isEmpty hempty
        simp only [hnot, hempty, false_and, and_false, or_false, implies_true, true_and]
      · rw [addEach_cons_of_hasDigest d hown, ih _ hrest]
        have hnot : ¬e.2.IsEmpty := hown.not_isEmpty
        by_cases hname : name = e.1
        · -- the new digest counts, unless another one follows
          subst hname
          have hsame : e.2.HasDigest digest ↔ own = digest :=
            ⟨hown.unique, fun heq => heq ▸ hown⟩
          simp only [SortedMap.get?_insert_self, Option.some.injEq, hsame, hnot, true_and,
            true_imp_iff, false_and, or_false, and_comm]
        · have hname' : e.1 ≠ name := Ne.symm hname
          simp only [SortedMap.get?_insert_of_ne _ _ hname, hname', false_and, or_false,
            false_imp_iff, true_and]

-- ================================================ what does not matter

/-- What is added in front of two lists that come to the same. -/
theorem addEach_append_congr {cs cs' : List (String × Contribution)}
    (h : ∀ d : DesiredState, d.addEach cs = d.addEach cs')
    (before : List (String × Contribution)) (d : DesiredState) :
    d.addEach (before ++ cs) = d.addEach (before ++ cs') := by
  induction before generalizing d with
  | nil => exact h d
  | cons e before ih =>
      rw [List.cons_append, List.cons_append, addEach, addEach]
      cases d.add e.1 e.2 with
      | ok d' => exact ih d'
      | error f => simp only [ih d]

/-- Contributions under different names trade places. -/
theorem addEach_swap {name' : String} {c' : Contribution} (hc : c.IsWritable) (hc' : c'.IsWritable)
    (hne : name ≠ name') (d : DesiredState) :
    d.addEach ((name, c) :: (name', c') :: cs) = d.addEach ((name', c') :: (name, c) :: cs) := by
  rcases hc.isEmpty_or with hempty | ⟨own, hown⟩
  · rcases hc'.isEmpty_or with hempty' | ⟨own', hown'⟩
    · rw [addEach_cons_of_isEmpty d hempty, addEach_cons_of_isEmpty d hempty',
        addEach_cons_of_isEmpty d hempty', addEach_cons_of_isEmpty d hempty]
    · rw [addEach_cons_of_isEmpty d hempty, addEach_cons_of_hasDigest d hown',
        addEach_cons_of_hasDigest d hown', addEach_cons_of_isEmpty _ hempty]
  · rcases hc'.isEmpty_or with hempty' | ⟨own', hown'⟩
    · rw [addEach_cons_of_hasDigest d hown, addEach_cons_of_isEmpty _ hempty',
        addEach_cons_of_isEmpty d hempty', addEach_cons_of_hasDigest d hown]
    · rw [addEach_cons_of_hasDigest d hown, addEach_cons_of_hasDigest _ hown',
        addEach_cons_of_hasDigest d hown', addEach_cons_of_hasDigest _ hown,
        SortedMap.insert_comm _ _ _ hne]

-- ==================================================== the composed digest

/-- The state that a list of contributions makes. -/
def made (cs : List (String × Contribution)) : DesiredState := (empty.addEach cs).1

/-- The bytes that are digested of a state in the end. -/
def preimage (d : DesiredState) : List UInt8 := Digest.terminated (Digest.mapElements d.items)

theorem get?_made (hcs : ∀ e ∈ cs, e.2.IsWritable) :
    (made cs).items.get? name = some digest ↔ IsLast cs name digest := by
  unfold made
  rw [get?_addEach empty hcs]
  constructor
  · rintro (h | ⟨-, h⟩)
    · exact h
    · cases h
  · exact Or.inl

/-- States are the same if the same contributions are the last of their names. -/
theorem made_eq_iff {cs' : List (String × Contribution)} (hcs : ∀ e ∈ cs, e.2.IsWritable)
    (hcs' : ∀ e ∈ cs', e.2.IsWritable) : (made cs).items = (made cs').items
      ↔ ∀ name digest, IsLast cs name digest ↔ IsLast cs' name digest := by
  constructor
  · intro h name digest
    rw [← get?_made hcs, h, get?_made hcs']
  · intro h
    refine SortedMap.ext_get? fun name => Option.ext fun digest => ?_
    rw [get?_made hcs, h, get?_made hcs']

/-- Neither names without zeros nor digests have a zero in them. -/
theorem zero_notMem_made (hcs : ∀ e ∈ cs, e.2.IsWritable)
    (hnames : ∀ e ∈ cs, Digest.zero ∉ e.1.toList) :
    ∀ s ∈ Digest.mapElements (made cs).items, Digest.zero ∉ s.toList := by
  intro s hs
  obtain ⟨name, digest, hget, hs⟩ := Digest.mem_mapElements.1 hs
  obtain ⟨before, c, after, heq, hdigest, -⟩ := (get?_made hcs).1 hget
  rcases hs with rfl | rfl
  · refine hnames (s, c) ?_
    rw [heq]
    exact List.mem_append_right _ List.mem_cons_self
  · exact Contribution.zero_notMem_of_hasDigest hdigest

/-- The composed digest of contributions that can be written is that of the map from each name with a
contribution that is not empty to the digest of the last one. Empty contributions change nothing
wherever they are, and neither does the order of contributions under different names; and where names
have no zeros, different maps are digested as different bytes. -/
theorem digest_of_last_contributions (cs : List (String × Contribution))
    (hcs : ∀ e ∈ cs, e.2.IsWritable) :
    (∃ d, empty.addEach cs = (d, none) ∧ d.digest = Digest.ofMap d.items
        ∧ ∀ name digest, d.items.get? name = some digest ↔ IsLast cs name digest)
      ∧ (∀ before after name c, cs = before ++ after → c.IsEmpty →
        made (before ++ (name, c) :: after) = made cs)
      ∧ (∀ before after name name' c c', cs = before ++ (name, c) :: (name', c') :: after →
        name ≠ name' → made (before ++ (name', c') :: (name, c) :: after) = made cs)
      ∧ (∀ cs', (∀ e ∈ cs', e.2.IsWritable) → (∀ e ∈ cs, Digest.zero ∉ e.1.toList) →
        (∀ e ∈ cs', Digest.zero ∉ e.1.toList) →
        ((made cs).preimage = (made cs').preimage
          ↔ ∀ name digest, IsLast cs name digest ↔ IsLast cs' name digest))
      ∧ (made cs).digest = Digest.hexText (Digest.sha256 (made cs).preimage) := by
  refine ⟨⟨made cs, ?_, rfl, fun name digest => get?_made hcs⟩, ?_, ?_, ?_, rfl⟩
  · exact Prod.ext rfl (addEach_snd empty hcs)
  · rintro before after name c rfl hempty
    unfold made
    rw [addEach_append_congr (fun d => addEach_cons_of_isEmpty d hempty)]
  · rintro before after name name' c c' rfl hne
    have hc : c.IsWritable := hcs (name, c) (List.mem_append_right _ List.mem_cons_self)
    have hc' : c'.IsWritable :=
      hcs (name', c') (List.mem_append_right _ (List.mem_cons_of_mem _ List.mem_cons_self))
    unfold made
    rw [addEach_append_congr (addEach_swap hc hc' hne)]
  · intro cs' hcs' hnames hnames'
    unfold preimage
    rw [Digest.terminated_inj (zero_notMem_made hcs hnames) (zero_notMem_made hcs' hnames'),
      Digest.mapElements_inj, made_eq_iff hcs hcs']

/-- A ratio of minus zero adds nothing, fields may be told in either order, and the same text under
another name shows. -/
theorem digest_of_last_contributions_told :
    made [("image", .text "v1"), ("ratio", .value (.float ⟨true, 0, 0⟩)), ("zone", .list ["b", "a"])]
        = made [("image", .text "v1"), ("zone", .list ["b", "a"])]
      ∧ made [("zone", .list ["b", "a"]), ("image", .text "v1")]
        = made [("image", .text "v1"), ("zone", .list ["b", "a"])]
      ∧ (made [("image", .text "v1"), ("zone", .list ["b", "a"])]).preimage
        ≠ (made [("volume", .text "v1")]).preimage := by
  have hwritable : ∀ e ∈ [("image", Contribution.text "v1"), ("zone", .list ["b", "a"])],
      e.2.IsWritable := by
    rintro e he v hv
    rcases he with _ | ⟨_, _ | ⟨_, he⟩⟩
    · cases hv
    · cases hv
    · cases he
  have hwritable' : ∀ e ∈ [("volume", Contribution.text "v1")], e.2.IsWritable := by
    rintro e he v hv
    rw [List.mem_singleton.1 he] at hv
    cases hv
  obtain ⟨-, hempty, hswap, hbytes, -⟩ := digest_of_last_contributions _ hwritable
  refine ⟨hempty [("image", .text "v1")] [("zone", .list ["b", "a"])] _ _ rfl
      (.value rfl (.floatingZero true 0)), hswap [] [] _ _ _ _ rfl (by decide), fun heq => ?_⟩
  have hlast := (hbytes _ hwritable' (by decide) (by decide)).1 heq "image"
  obtain ⟨before, c, after, hcs, -⟩ := (hlast _).1
    ⟨[], _, [("zone", .list ["b", "a"])], rfl, .text (by decide), by simp [Silent]⟩
  -- nothing is said of an image
  have hmem : ("image", c) ∈ [("volume", Contribution.text "v1")] :=
    hcs ▸ List.mem_append_right before List.mem_cons_self
  have hname : "image" = "volume" := congrArg Prod.fst (List.mem_singleton.1 hmem)
  exact absurd hname (by decide)

end DesiredState

end ControlLoop
