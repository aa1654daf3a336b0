/-
Finite maps as lists of entries whose keys strictly increase.

Labels, annotations, stored objects and drain states are all finite
maps whose order of iteration is part of what callers see, so the
order belongs to the representation: two maps are equal exactly when
they hold the same entries, and walking a map walks its keys upwards.

The list operations (`Entries`) are kept apart from the bundled type,
because the fields of a nested value can only be a bare list.
Main statements: `get?_insert`, `get?_erase`, and extensionality
(`SortedMap.ext_get?`).
-/

namespace ControlLoop

universe u v w

/-- A list of keyed entries. -/
abbrev Entries (κ : Type u) (α : Type v) := List (κ × α)

namespace Entries

variable {κ : Type u} {α : Type v} [Ord κ]

/-- The keys strictly increase along the list. -/
def Increasing (es : Entries κ α) : Prop :=
  List.Pairwise (fun a b => compare a.1 b.1 = .lt) es

/-- The value under a key. -/
def lookup (k : κ) : Entries κ α → Option α
  | [] => none
  | (k', a) :: rest => if compare k k' = .eq then some a else lookup k rest

/-- Put a value under a key, in place of any value it had. -/
def insert (k : κ) (a : α) : Entries κ α → Entries κ α
  | [] => [(k, a)]
  | (k', a') :: rest =>
    match compare k k' with
    | .lt => (k, a) :: (k', a') :: rest
    | .eq => (k, a) :: rest
    | .gt => (k', a') :: insert k a rest

/-- Drop a key. -/
def erase (k : κ) (es : Entries κ α) : Entries κ α :=
  es.filter fun e => compare k e.1 != .eq

/-- Insert every pair of a list in turn: of repeated keys the last wins. -/
def ofList (pairs : List (κ × α)) : Entries κ α :=
  pairs.foldl (fun es e => insert e.1 e.2 es) []

@[simp] theorem lookup_nil (k : κ) : lookup k ([] : Entries κ α) = none := rfl

theorem lookup_cons (k k' : κ) (a : α) (es : Entries κ α) :
    lookup k ((k', a) :: es) = if compare k k' = .eq then some a else lookup k es := rfl

theorem mem_insert {k : κ} {a : α} {e : κ × α} {es : Entries κ α}
    (h : e ∈ insert k a es) : e = (k, a) ∨ e ∈ es := by
  induction es with
  | nil => simpa [insert] using h
  | cons x rest ih =>
    obtain ⟨k', a'⟩ := x
    simp only [insert] at h
    split at h
    · simpa using h
    · rcases List.mem_cons.1 h with h | h
      · exact Or.inl h
      · exact Or.inr (List.mem_cons_of_mem _ h)
    · rcases List.mem_cons.1 h with h | h
      · exact Or.inr (h ▸ List.mem_cons_self)
      · exact (ih h).imp id (List.mem_cons_of_mem _)

variable [Std.TransOrd κ]

theorem Increasing.insert {es : Entries κ α} (h : Increasing es) (k : κ) (a : α) :
    Increasing (Entries.insert k a es) := by
  induction es with
  | nil => exact List.pairwise_singleton _ _
  | cons x rest ih =>
    obtain ⟨k', a'⟩ := x
    obtain ⟨hhead, htail⟩ := List.pairwise_cons.1 h
    simp only [Entries.insert]
    split
    · next hlt =>
      refine List.pairwise_cons.2 ⟨fun e he => ?_, h⟩
      rcases List.mem_cons.1 he with rfl | he
      · exact hlt
      · exact Std.TransCmp.lt_trans hlt (hhead e he)
    · next heq =>
      refine List.pairwise_cons.2 ⟨fun e he => ?_, htail⟩
      exact (Std.TransCmp.congr_left heq).trans (hhead e he)
    · next hgt =>
      refine List.pairwise_cons.2 ⟨fun e he => ?_, ih htail⟩
      rcases mem_insert he with rfl | he
      · exact Std.OrientedCmp.lt_of_gt hgt
      · exact hhead e he

omit [Std.TransOrd κ] in
theorem Increasing.erase {es : Entries κ α} (h : Increasing es) (k : κ) :
    Increasing (Entries.erase k es) := List.Pairwise.filter _ h

theorem increasing_ofList (pairs : List (κ × α)) : Increasing (ofList pairs) := by
  have : ∀ (es : Entries κ α), Increasing es →
      Increasing (pairs.foldl (fun es e => Entries.insert e.1 e.2 es) es) := by
    induction pairs with
    | nil => exact fun _ h => h
    | cons x rest ih => exact fun es h => ih _ (h.insert x.1 x.2)
  exact this [] List.Pairwise.nil

variable [Std.LawfulEqOrd κ]

theorem lookup_insert {es : Entries κ α} (h : Increasing es) (k k' : κ) (a : α) :
    lookup k' (Entries.insert k a es) = if compare k' k = .eq then some a else lookup k' es := by
  induction es with
  | nil => simp [Entries.insert, lookup_cons]
  | cons x rest ih =>
    obtain ⟨k₁, a₁⟩ := x
    obtain ⟨hhead, htail⟩ := List.pairwise_cons.1 h
    simp only [Entries.insert]
    split
    · next hlt => simp [lookup_cons]
    · next heq =>
      obtain rfl := Std.LawfulEqCmp.eq_of_compare heq
      simp only [lookup_cons]
      split <;> rfl
    · next hgt =>
      simp only [lookup_cons, ih htail]
      by_cases h₁ : compare k' k₁ = .eq
      · have hne : compare k' k ≠ .eq := by
          intro h₂
          obtain rfl := Std.LawfulEqCmp.eq_of_compare h₁
          have := Std.OrientedCmp.eq_symm h₂
          rw [hgt] at this
          cases this
        simp [h₁, hne]
      · simp [h₁]

omit [Std.TransOrd κ] in
theorem mem_of_lookup {es : Entries κ α} {k : κ} {a : α} (h : lookup k es = some a) :
    (k, a) ∈ es := by
  induction es with
  | nil => cases h
  | cons e rest ih =>
    rw [lookup_cons] at h
    split at h
    · next heq =>
      obtain rfl := Std.LawfulEqCmp.eq_of_compare heq
      obtain rfl := Option.some.inj h
      exact List.mem_cons_self
    · exact List.mem_cons_of_mem _ (ih h)

omit [Std.LawfulEqOrd κ] in
theorem lookup_erase {es : Entries κ α} (k k' : κ) :
    lookup k' (Entries.erase k es) = if compare k' k = .eq then none else lookup k' es := by
  induction es with
  | nil => simp [Entries.erase]
  | cons x rest ih =>
    obtain ⟨k₁, a₁⟩ := x
    simp only [Entries.erase, List.filter_cons] at ih ⊢
    by_cases hk : compare k k₁ = .eq
    · simp only [hk, bne_self_eq_false, Bool.false_eq_true, if_false, ih, lookup_cons]
      have : compare k' k = compare k' k₁ := Std.TransCmp.congr_right hk
      rw [this]
      split <;> simp_all
    · simp only [bne_iff_ne, ne_eq, hk, not_false_eq_true, if_true, lookup_cons, ih]
      by_cases h₁ : compare k' k₁ = .eq
      · have hne : compare k' k ≠ .eq := by
          intro h₂
          exact hk ((Std.TransCmp.congr_left (Std.OrientedCmp.eq_symm h₂)).trans h₁)
        simp [h₁, hne]
      · simp [h₁]

end Entries

/-- A finite map: its entries in strictly increasing key order. -/
structure SortedMap (κ : Type u) (α : Type v) [Ord κ] where
  /-- The entries, smallest key first. -/
  entries : Entries κ α
  increasing : entries.Increasing

/-- A finite set, kept in order. -/
abbrev SortedSet (κ : Type u) [Ord κ] := SortedMap κ Unit

/-- Texts under texts: labels, annotations, data. -/
abbrev TextMap := SortedMap String String

namespace SortedMap

variable {κ : Type u} {α : Type v} {β : Type w} [Ord κ]

theorem eq_of_entries : {m m' : SortedMap κ α} → m.entries = m'.entries → m = m'
  | ⟨_, _⟩, ⟨_, _⟩, rfl => rfl

theorem entries_inj {m m' : SortedMap κ α} : m.entries = m'.entries ↔ m = m' :=
  ⟨eq_of_entries, fun h => h ▸ rfl⟩

instance [DecidableEq κ] [DecidableEq α] : DecidableEq (SortedMap κ α) := fun m m' =>
  decidable_of_iff (m.entries = m'.entries) entries_inj

/-- The map without entries. -/
def empty : SortedMap κ α := ⟨[], List.Pairwise.nil⟩

instance : EmptyCollection (SortedMap κ α) := ⟨empty⟩
instance : Inhabited (SortedMap κ α) := ⟨empty⟩

def isEmpty (m : SortedMap κ α) : Bool := m.entries.isEmpty

def size (m : SortedMap κ α) : Nat := m.entries.length

/-- The entries, smallest key first. -/
def toList (m : SortedMap κ α) : List (κ × α) := m.entries

/-- The keys, upwards. -/
def keys (m : SortedMap κ α) : List κ := m.entries.map (·.1)

/-- The values in the order of their keys. -/
def values (m : SortedMap κ α) : List α := m.entries.map (·.2)

def get? (m : SortedMap κ α) (k : κ) : Option α := m.entries.lookup k

def contains (m : SortedMap κ α) (k : κ) : Bool := (m.get? k).isSome

instance : Membership κ (SortedMap κ α) := ⟨fun m k => m.contains k = true⟩

instance (k : κ) (m : SortedMap κ α) : Decidable (k ∈ m) :=
  inferInstanceAs (Decidable (m.contains k = true))

def erase (m : SortedMap κ α) (k : κ) : SortedMap κ α := ⟨m.entries.erase k, m.increasing.erase k⟩

/-- The entries that pass a test. -/
def filter (p : κ → α → Bool) (m : SortedMap κ α) : SortedMap κ α :=
  ⟨m.entries.filter fun e => p e.1 e.2, List.Pairwise.filter _ m.increasing⟩

variable [Std.TransOrd κ]

/-- Put a value under a key, in place of any value it had. -/
def insert (m : SortedMap κ α) (k : κ) (a : α) : SortedMap κ α :=
  ⟨m.entries.insert k a, m.increasing.insert k a⟩

/-- Put a value under a key that has none yet. -/
def insertIfNew (m : SortedMap κ α) (k : κ) (a : α) : SortedMap κ α :=
  if m.contains k then m else m.insert k a

/-- Of repeated keys the last wins. -/
def ofList (pairs : List (κ × α)) : SortedMap κ α :=
  ⟨Entries.ofList pairs, Entries.increasing_ofList pairs⟩

/-- Add every pair of a list; of repeated keys the last wins. -/
def insertMany (m : SortedMap κ α) (pairs : List (κ × α)) : SortedMap κ α :=
  pairs.foldl (fun m e => m.insert e.1 e.2) m

/-- The entries of both maps; where both have a key, the second map's. -/
def union (m m' : SortedMap κ α) : SortedMap κ α := m.insertMany m'.entries

/-- The set of the members of a list. -/
def ofKeys (ks : List κ) : SortedSet κ := ofList (ks.map fun k => (k, ()))

omit [Std.TransOrd κ] in
@[simp] theorem get?_empty (k : κ) : (∅ : SortedMap κ α).get? k = none := rfl

omit [Std.TransOrd κ] in
theorem contains_eq (m : SortedMap κ α) (k : κ) : m.contains k = (m.get? k).isSome := rfl

theorem get?_erase (m : SortedMap κ α) (k k' : κ) :
    (m.erase k).get? k' = if compare k' k = .eq then none else m.get? k' :=
  Entries.lookup_erase k k'

variable [Std.LawfulEqOrd κ]

theorem get?_insert (m : SortedMap κ α) (k k' : κ) (a : α) :
    (m.insert k a).get? k' = if compare k' k = .eq then some a else m.get? k' :=
  Entries.lookup_insert m.increasing k k' a

@[simp] theorem get?_insert_self (m : SortedMap κ α) (k : κ) (a : α) :
    (m.insert k a).get? k = some a := by
  simp [get?_insert]

theorem get?_insert_of_ne (m : SortedMap κ α) {k k' : κ} (a : α) (h : k' ≠ k) :
    (m.insert k a).get? k' = m.get? k' := by
  have : compare k' k ≠ .eq := fun he => h (Std.LawfulEqCmp.eq_of_compare he)
  simp [get?_insert, this]

@[simp] theorem get?_erase_self (m : SortedMap κ α) (k : κ) : (m.erase k).get? k = none := by
  simp [get?_erase]

theorem get?_erase_of_ne (m : SortedMap κ α) {k k' : κ} (h : k' ≠ k) :
    (m.erase k).get? k' = m.get? k' := by
  have : compare k' k ≠ .eq := fun he => h (Std.LawfulEqCmp.eq_of_compare he)
  simp [get?_erase, this]

omit [Std.TransOrd κ] in
theorem mem_toList_of_get? {m : SortedMap κ α} {k : κ} {a : α} (h : m.get? k = some a) :
    (k, a) ∈ m.toList := Entries.mem_of_lookup h

theorem get?_of_mem_toList {m : SortedMap κ α} {k : κ} {a : α} (h : (k, a) ∈ m.toList) :
    m.get? k = some a := by
  have : ∀ es : Entries κ α, es.Increasing → (k, a) ∈ es → es.lookup k = some a := by
    intro es hes
    induction es with
    | nil => simp
    | cons x rest ih =>
      obtain ⟨k', a'⟩ := x
      obtain ⟨hhead, htail⟩ := List.pairwise_cons.1 hes
      intro hmem
      rw [Entries.lookup_cons]
      rcases List.mem_cons.1 hmem with heq | hmem
      · cases heq
        simp
      · have hlt : compare k' k = .lt := hhead _ hmem
        have : compare k k' ≠ .eq := fun he => by
          rw [Std.OrientedCmp.eq_symm he] at hlt
          cases hlt
        rw [if_neg this]
        exact ih htail hmem
  exact this _ m.increasing h

theorem mem_toList_iff {m : SortedMap κ α} {k : κ} {a : α} :
    (k, a) ∈ m.toList ↔ m.get? k = some a :=
  ⟨get?_of_mem_toList, mem_toList_of_get?⟩

/-- Maps with the same value under every key are the same map. -/
theorem ext_get? {m m' : SortedMap κ α} (h : ∀ k, m.get? k = m'.get? k) : m = m' := by
  have hmem : ∀ e : κ × α, e ∈ m.entries ↔ e ∈ m'.entries := fun e => by
    have := h e.1
    exact ⟨fun he => mem_toList_of_get? (this ▸ get?_of_mem_toList he),
      fun he => mem_toList_of_get? (this ▸ get?_of_mem_toList he)⟩
  have hanti : ∀ es es' : Entries κ α, es.Increasing → es'.Increasing →
      (∀ e : κ × α, e ∈ es ↔ e ∈ es') → es = es' := by
    intro es
    induction es with
    | nil =>
      intro es' _ _ h
      cases es' with
      | nil => rfl
      | cons y ys => exact absurd ((h y).2 List.mem_cons_self) List.not_mem_nil
    | cons x xs ih =>
      intro es' hes hes' h
      cases es' with
      | nil => exact absurd ((h x).1 List.mem_cons_self) List.not_mem_nil
      | cons y ys =>
        obtain ⟨hx, hxs⟩ := List.pairwise_cons.1 hes
        obtain ⟨hy, hys⟩ := List.pairwise_cons.1 hes'
        have irrefl : ∀ k : κ, compare k k ≠ .lt := fun k hk => by
          simp at hk
        have asymm : ∀ a b : κ, compare a b = .lt → compare b a ≠ .lt := fun a b h₁ h₂ =>
          irrefl a (Std.TransCmp.lt_trans h₁ h₂)
        have hxy : x = y := by
          rcases List.mem_cons.1 ((h x).1 List.mem_cons_self) with rfl | hmx
          · rfl
          · rcases List.mem_cons.1 ((h y).2 List.mem_cons_self) with rfl | hmy
            · rfl
            · exact absurd (hx _ hmy) (asymm _ _ (hy _ hmx))
        subst hxy
        congr 1
        refine ih ys hxs hys fun e => ⟨fun he => ?_, fun he => ?_⟩
        · rcases List.mem_cons.1 ((h e).1 (List.mem_cons_of_mem _ he)) with rfl | h'
          · exact absurd (hx _ he) (irrefl _)
          · exact h'
        · rcases List.mem_cons.1 ((h e).2 (List.mem_cons_of_mem _ he)) with rfl | h'
          · exact absurd (hy _ he) (irrefl _)
          · exact h'
  exact eq_of_entries (hanti _ _ m.increasing m'.increasing hmem)

end SortedMap

end ControlLoop
