import Mathlib

/-! Finite maps kept as their entries in strictly increasing key order.
Lookup, update and removal are specified through entry membership; permutations of the
entry list then transport every count and sum over the stored values.
-/

namespace PacketQuapture.Library

universe u v

/-- A finite map whose entries are stored in strictly increasing key order. -/
structure OrderedMap (κ : Type u) (α : Type v) [LinearOrder κ] where
  entries : List (κ × α)
  sorted : entries.Pairwise (fun left right => left.1 < right.1)

namespace OrderedMap

variable {κ : Type u} {α : Type v} [LinearOrder κ]
variable {key other : κ} {map : OrderedMap κ α} {value : α}

theorem ext_entries {left right : OrderedMap κ α} (same : left.entries = right.entries)
    : left = right := by
  cases left
  cases right
  cases same
  rfl

instance [DecidableEq α] : DecidableEq (OrderedMap κ α) := fun left right =>
  decidable_of_iff (left.entries = right.entries)
    ⟨ext_entries, fun same => congrArg entries same⟩

/-! ### Operations -/

def empty : OrderedMap κ α := ⟨[], .nil⟩

def find? (map : OrderedMap κ α) (key : κ) : Option α :=
  (map.entries.find? (fun entry => entry.1 = key)).map Prod.snd

def size (map : OrderedMap κ α) : Nat :=
  map.entries.length

/-- The entry of the least key. -/
def first? (map : OrderedMap κ α) : Option (κ × α) :=
  map.entries.head?

def erase (map : OrderedMap κ α) (key : κ) : OrderedMap κ α :=
  ⟨map.entries.filter (fun entry => entry.1 ≠ key), map.sorted.filter _⟩

/-- Places an entry before the first entry with a larger key. -/
def insertEntry (key : κ) (value : α) : List (κ × α) → List (κ × α)
  | [] => [(key, value)]
  | head :: rest =>
    if key < head.1 then (key, value) :: head :: rest
    else head :: insertEntry key value rest

theorem insertEntry_perm (key : κ) (value : α) (entries : List (κ × α))
    : (insertEntry key value entries).Perm ((key, value) :: entries) := by
  induction entries with
  | nil => exact .refl _
  | cons head rest ih =>
    simp only [insertEntry]
    split
    · exact .refl _
    · exact (ih.cons head).trans (.swap _ _ _)

/-- Inserting a fresh key keeps the entries strictly sorted, by list induction. -/
theorem insertEntry_sorted (key : κ) (value : α) {entries : List (κ × α)}
    (sorted : entries.Pairwise (fun left right => left.1 < right.1))
    (fresh : ∀ entry ∈ entries, entry.1 ≠ key)
    : (insertEntry key value entries).Pairwise (fun left right => left.1 < right.1) := by
  induction entries with
  | nil => simp [insertEntry]
  | cons head rest ih =>
    obtain ⟨below, tail⟩ := List.pairwise_cons.mp sorted
    simp only [insertEntry]
    split
    case isTrue smaller =>
      refine List.pairwise_cons.mpr ⟨?_, sorted⟩
      intro entry member
      rcases List.mem_cons.mp member with rfl | later
      · exact smaller
      · exact smaller.trans (below entry later)
    case isFalse larger =>
      refine List.pairwise_cons.mpr ⟨?_, ih tail (fun entry member => fresh entry (by simp [member]))⟩
      intro entry member
      rcases List.mem_cons.mp ((insertEntry_perm key value rest).mem_iff.mp member) with rfl | later
      · exact lt_of_le_of_ne (not_lt.mp larger) (fresh head (by simp))
      · exact below entry later

/-- Stores a value under a key, replacing the value already there. -/
def insert (map : OrderedMap κ α) (key : κ) (value : α) : OrderedMap κ α :=
  ⟨insertEntry key value (map.erase key).entries,
    insertEntry_sorted key value (map.erase key).sorted (by
      intro entry member
      simpa using (List.mem_filter.mp member).2)⟩

/-! ### Lookup through entry membership -/

/-- A key occurs at most once.
Witness: two entries of one key would violate the strict order in either arrangement.
-/
theorem entry_unique (map : OrderedMap κ α) {left right : α}
    (leftMember : (key, left) ∈ map.entries) (rightMember : (key, right) ∈ map.entries)
    : left = right := by
  have nodup : (map.entries.map Prod.fst).Nodup := by
    rw [List.Nodup, List.pairwise_map]
    exact map.sorted.imp fun below => below.ne
  have same := List.inj_on_of_nodup_map nodup leftMember rightMember rfl
  exact (Prod.mk.inj same).2

theorem find?_eq_some_iff
    : map.find? key = some value ↔ (key, value) ∈ map.entries := by
  constructor
  · intro found
    obtain ⟨entry, located, rfl⟩ := Option.map_eq_some_iff.mp found
    have matched : entry.1 = key := by simpa using List.find?_some located
    subst matched
    exact List.mem_of_find?_eq_some located
  · intro member
    cases located : map.entries.find? (fun entry => entry.1 = key) with
    | none =>
      have absent := List.find?_eq_none.mp located _ member
      simp at absent
    | some entry =>
      have matched : entry.1 = key := by simpa using List.find?_some located
      subst matched
      have same := map.entry_unique (List.mem_of_find?_eq_some located) member
      simp [find?, located, same]

theorem find?_eq_none_iff
    : map.find? key = none ↔ ∀ value, (key, value) ∉ map.entries := by
  simp only [← find?_eq_some_iff, Option.eq_none_iff_forall_ne_some, ne_eq]

theorem mem_erase_iff
    : (other, value) ∈ (map.erase key).entries ↔ (other, value) ∈ map.entries ∧ other ≠ key := by
  simp [erase]

theorem mem_insert_iff {stored : α}
    : (other, stored) ∈ (map.insert key value).entries
      ↔ (other = key ∧ stored = value) ∨ ((other, stored) ∈ map.entries ∧ other ≠ key) := by
  simp only [insert, (insertEntry_perm key value _).mem_iff, List.mem_cons, Prod.mk.injEq,
    mem_erase_iff]

@[simp] theorem find?_empty (key : κ) : (empty : OrderedMap κ α).find? key = none := rfl

@[simp] theorem find?_insert_self (map : OrderedMap κ α) (key : κ) (value : α)
    : (map.insert key value).find? key = some value :=
  find?_eq_some_iff.mpr (mem_insert_iff.mpr (.inl ⟨rfl, rfl⟩))

theorem find?_insert_of_ne (map : OrderedMap κ α) (value : α) (distinct : other ≠ key)
    : (map.insert key value).find? other = map.find? other := by
  ext stored
  simp only [find?_eq_some_iff, mem_insert_iff, distinct, false_and, false_or, ne_eq,
    not_false_eq_true, and_true]

@[simp] theorem find?_erase_self (map : OrderedMap κ α) (key : κ)
    : (map.erase key).find? key = none := by
  simp [find?_eq_none_iff, mem_erase_iff]

theorem find?_erase_of_ne (map : OrderedMap κ α) (distinct : other ≠ key)
    : (map.erase key).find? other = map.find? other := by
  ext stored
  simp [find?_eq_some_iff, mem_erase_iff, distinct]

theorem find?_insert (map : OrderedMap κ α) (key other : κ) (value : α)
    : (map.insert key value).find? other = if other = key then some value else map.find? other := by
  split
  case isTrue same => rw [same, find?_insert_self]
  case isFalse distinct => exact find?_insert_of_ne map value distinct

theorem find?_erase (map : OrderedMap κ α) (key other : κ)
    : (map.erase key).find? other = if other = key then none else map.find? other := by
  split
  case isTrue same => rw [same, find?_erase_self]
  case isFalse distinct => exact find?_erase_of_ne map distinct

/-- What is found after an insertion is the new entry or an old one. -/
theorem find?_insert_eq_some {stored : α}
    (found : (map.insert key value).find? other = some stored)
    : (other = key ∧ stored = value) ∨ (other ≠ key ∧ map.find? other = some stored) := by
  rw [find?_insert] at found
  split at found
  case isTrue same => exact .inl ⟨same, (Option.some.inj found).symm⟩
  case isFalse distinct => exact .inr ⟨distinct, found⟩

/-- What is found after an erasure is an entry under another key. -/
theorem find?_erase_eq_some (found : (map.erase key).find? other = some value)
    : other ≠ key ∧ map.find? other = some value := by
  rw [find?_erase, Option.ite_none_left_eq_some] at found
  exact found

/-! ### Extensionality -/

/-- Maps that answer every lookup alike are equal.
Witness: their entry lists are permutations of one another and both strictly sorted.
-/
theorem ext_find? {left right : OrderedMap κ α}
    (same : ∀ key, left.find? key = right.find? key)
    : left = right := by
  apply ext_entries
  have nodup (map : OrderedMap κ α) : map.entries.Nodup :=
    map.sorted.imp fun below equal => below.ne (congrArg Prod.fst equal)
  have perm : left.entries.Perm right.entries := by
    refine (List.perm_ext_iff_of_nodup (nodup left) (nodup right)).mpr ?_
    rintro ⟨key, value⟩
    rw [← find?_eq_some_iff, ← find?_eq_some_iff, same]
  exact perm.eq_of_pairwise (fun _ _ _ _ below above => absurd below above.asymm)
    left.sorted right.sorted

theorem insert_insert (map : OrderedMap κ α) (key : κ) (first second : α)
    : (map.insert key first).insert key second = map.insert key second := by
  apply ext_find?
  intro other
  simp only [find?_insert]
  split <;> rfl

theorem erase_insert (map : OrderedMap κ α) (key : κ) (value : α)
    : (map.insert key value).erase key = map.erase key := by
  apply ext_find?
  intro other
  simp only [find?_erase, find?_insert]
  split <;> rfl

theorem erase_eq_self (absent : map.find? key = none)
    : map.erase key = map := by
  apply ext_find?
  intro other
  rw [find?_erase]
  split
  case isTrue same => rw [same, absent]
  case isFalse => rfl

theorem insert_eq_self (found : map.find? key = some value)
    : map.insert key value = map := by
  apply ext_find?
  intro other
  rw [find?_insert]
  split
  case isTrue same => rw [same, found]
  case isFalse => rfl

/-! ### Counting and summing over the stored values -/

theorem insert_perm (map : OrderedMap κ α) (key : κ) (value : α)
    : (map.insert key value).entries.Perm ((key, value) :: (map.erase key).entries) :=
  insertEntry_perm key value _

theorem perm_of_find? (found : map.find? key = some value)
    : map.entries.Perm ((key, value) :: (map.erase key).entries) := by
  have restored : (map.erase key).insert key value = map := by
    apply ext_find?
    intro other
    rw [find?_insert, find?_erase]
    split
    case isTrue same => rw [same, found]
    case isFalse => rfl
  have split := (map.erase key).insert_perm key value
  rw [restored, erase_eq_self (find?_erase_self map key)] at split
  exact split

/-- The sum of a weight over the entries. -/
def sumOf (weight : κ × α → Nat) (map : OrderedMap κ α) : Nat :=
  (map.entries.map weight).sum

@[simp] theorem sumOf_empty (weight : κ × α → Nat)
    : (empty : OrderedMap κ α).sumOf weight = 0 := rfl

theorem sumOf_erase (weight : κ × α → Nat) (found : map.find? key = some value)
    : map.sumOf weight = weight (key, value) + (map.erase key).sumOf weight := by
  simpa only [sumOf, List.map_cons, List.sum_cons] using
    ((perm_of_find? found).map weight).sum_eq

theorem sumOf_insert (weight : κ × α → Nat) (map : OrderedMap κ α) (key : κ) (value : α)
    : (map.insert key value).sumOf weight
      = weight (key, value) + (map.erase key).sumOf weight := by
  simpa only [sumOf, List.map_cons, List.sum_cons] using
    ((map.insert_perm key value).map weight).sum_eq

@[simp] theorem size_empty : (empty : OrderedMap κ α).size = 0 := rfl

theorem size_erase (found : map.find? key = some value)
    : map.size = (map.erase key).size + 1 := by
  simpa only [size, List.length_cons] using (perm_of_find? found).length_eq

theorem size_erase_le (map : OrderedMap κ α) (key : κ) : (map.erase key).size ≤ map.size :=
  List.length_filter_le ..

theorem size_insert (map : OrderedMap κ α) (key : κ) (value : α)
    : (map.insert key value).size = (map.erase key).size + 1 := by
  simpa only [size, List.length_cons] using (map.insert_perm key value).length_eq

theorem sumOf_le_mul_size (weight : κ × α → Nat) (map : OrderedMap κ α) {bound : Nat}
    (each : ∀ entry ∈ map.entries, weight entry ≤ bound)
    : map.sumOf weight ≤ bound * map.size := by
  have total := List.sum_le_card_nsmul (map.entries.map weight) bound (by
    intro value member
    obtain ⟨entry, stored, rfl⟩ := List.mem_map.mp member
    exact each entry stored)
  simpa [sumOf, size, Nat.mul_comm] using total

/-! ### The least entry -/

theorem find?_of_first? (least : map.first? = some (key, value))
    : map.find? key = some value :=
  find?_eq_some_iff.mpr (List.mem_of_head? least)

theorem first?_eq_none_iff : map.first? = none ↔ map = empty := by
  constructor
  · intro none
    exact ext_entries (List.head?_eq_none_iff.mp none)
  · rintro rfl
    rfl

theorem entries_erase_head {head : κ × α} {rest : List (κ × α)}
    (entries : map.entries = head :: rest)
    : (map.erase head.1).entries = rest := by
  have sorted := map.sorted
  rw [entries] at sorted
  have above := (List.pairwise_cons.mp sorted).1
  simp only [erase, entries]
  rw [List.filter_cons_of_neg (by simp), List.filter_eq_self]
  intro entry member
  simpa using (above entry member).ne'

/-- Leaving out values that yield nothing does not change what the map yields, up to order.
Witness: induction on the size; the first key is taken out of both maps.
-/
theorem flatMap_perm_of_left_out {β : Type} {yield : α → List β} {less : OrderedMap κ α}
    (kept : ∀ key, less.find? key = map.find? key
      ∨ (less.find? key = none ∧ ∃ value, map.find? key = some value ∧ yield value = []))
    : (less.entries.flatMap fun entry => yield entry.2).Perm
        (map.entries.flatMap fun entry => yield entry.2) := by
  obtain ⟨size, bound⟩ : ∃ size, map.entries.length = size := ⟨_, rfl⟩
  induction size generalizing map less with
  | zero =>
    have empty : map = empty := ext_entries (List.eq_nil_of_length_eq_zero bound)
    subst empty
    have same : less = empty := by
      refine ext_find? fun key => ?_
      rcases kept key with same | ⟨gone, _⟩
      · exact same
      · exact gone
    rw [same]
  | succ size ih =>
    obtain ⟨⟨key, value⟩, rest, entries⟩ := List.exists_cons_of_length_eq_add_one bound
    have found : map.find? key = some value :=
      find?_eq_some_iff.mpr (by rw [entries]; exact List.mem_cons_self)
    have tail := entries_erase_head entries
    have smaller : (map.erase key).entries.length = size := by
      rw [tail]
      simpa [entries] using bound
    have later := @ih (map.erase key) (less.erase key) (by
      intro other
      by_cases same : other = key
      · rw [same, find?_erase_self, find?_erase_self]
        exact .inl rfl
      · rw [find?_erase_of_ne _ same, find?_erase_of_ne _ same]
        exact kept other) smaller
    rw [entries, List.flatMap_cons, ← tail]
    rcases kept key with same | ⟨gone, stored, again, nothing⟩
    · have split := (perm_of_find? (same.trans found)).flatMap_right
        (fun entry => yield entry.2)
      rw [List.flatMap_cons] at split
      exact split.trans (later.append_left _)
    · obtain rfl := Option.some.inj (found.symm.trans again)
      rw [erase_eq_self gone] at later
      rw [nothing]
      exact later

/-! ### Changing every value -/

section MapValues

universe w

variable {β : Type w} (change : α → β)

/-- The map with every value changed and the keys as they are. -/
def mapValues (map : OrderedMap κ α) : OrderedMap κ β :=
  ⟨map.entries.map fun entry => (entry.1, change entry.2), by
    rw [List.pairwise_map]
    exact map.sorted⟩

@[simp]
theorem find?_mapValues (map : OrderedMap κ α) (key : κ)
    : (map.mapValues change).find? key = (map.find? key).map change := by
  simp only [find?, mapValues, List.find?_map, Option.map_map]
  rfl

@[simp]
theorem size_mapValues (map : OrderedMap κ α) : (map.mapValues change).size = map.size := by
  simp [size, mapValues]

@[simp]
theorem first?_mapValues (map : OrderedMap κ α)
    : (map.mapValues change).first? = map.first?.map fun entry => (entry.1, change entry.2) := by
  simp only [first?, mapValues, List.head?_map]

@[simp]
theorem mapValues_erase (map : OrderedMap κ α) (key : κ)
    : (map.erase key).mapValues change = (map.mapValues change).erase key := by
  refine ext_find? fun other => ?_
  simp only [find?_mapValues, find?_erase]
  split <;> rfl

@[simp]
theorem mapValues_insert (map : OrderedMap κ α) (key : κ) (value : α)
    : (map.insert key value).mapValues change
      = (map.mapValues change).insert key (change value) := by
  refine ext_find? fun other => ?_
  simp only [find?_mapValues, find?_insert]
  split <;> rfl

end MapValues

end OrderedMap

end PacketQuapture.Library
