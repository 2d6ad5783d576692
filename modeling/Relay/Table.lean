/-!
# Key-sorted tables

A `Table α` is an association list that is read by key with `List.lookup`.

* `Table.put`     binds a key, at its place in the key order, replacing an earlier binding;
* `Table.ofList`  the table of a list of bindings, where the last binding of a key counts;
* `Table.without` the table with a key unbound;
* `Table.IsLast`  the last binding of a key in a list, which is the one that its table has
  (`lookup_ofList_eq_some_iff`).

`lookup_put_self`, `lookup_put_of_ne` and `lookup_without_of_ne` say what each operation does to the
reading by key, `put_put_self` and `put_comm` what two bindings come to. They hold of every list, sorted
or not. `sorted_put` keeps the key order, in which no key is bound twice (`keys_nodup`) and a table is
told by what it reads (`Sorted.eq_of_lookup`).
-/

namespace Relay

/-- bindings of names to entries -/
abbrev Table (α : Type u) := List (String × α)

namespace Table

variable {α : Type u} {β : Type v}

/-- binds `k` to `a`, before the first greater key -/
def put (k : String) (a : α) : Table α → Table α
  | [] => [(k, a)]
  | (k', a') :: rest =>
    if k < k' then (k, a) :: (k', a') :: rest
    else if k = k' then (k, a) :: rest
    else (k', a') :: put k a rest

/-- the table of a list of bindings; of two with one key the later counts -/
def ofList (bindings : List (String × α)) : Table α :=
  bindings.foldl (fun t b => put b.1 b.2 t) []

def without (k : String) (t : Table α) : Table α :=
  t.filter (fun b => b.1 != k)

/-- the bound names, in table order -/
def keys (t : Table α) : List String := t.map Prod.fst

/-- strictly increasing keys -/
def Sorted (t : Table α) : Prop := t.Pairwise (fun a b => a.1 < b.1)

theorem put_nil (k : String) (a : α) : put k a [] = [(k, a)] := rfl

theorem ofList_append (bs cs : List (String × α)) :
    ofList (bs ++ cs) = cs.foldl (fun t b => put b.1 b.2 t) (ofList bs) := by
  simp [ofList, List.foldl_append]

/-! ## reading by key -/

theorem lookup_put_self (k : String) (a : α) (t : Table α) : (put k a t).lookup k = some a := by
  induction t with
  | nil => simp [put]
  | cons b rest ih =>
    obtain ⟨k', a'⟩ := b
    unfold put
    split
    · simp
    · split
      · simp
      · rename_i h
        rw [List.lookup_cons, beq_false_of_ne h]
        exact ih

theorem lookup_put_of_ne {k j : String} (h : j ≠ k) (a : α) (t : Table α) :
    (put k a t).lookup j = t.lookup j := by
  induction t with
  | nil => simp [put, List.lookup_cons, beq_false_of_ne h]
  | cons b rest ih =>
    obtain ⟨k', a'⟩ := b
    unfold put
    split
    · rw [List.lookup_cons, beq_false_of_ne h]
    · split
      · rename_i hk
        subst hk
        rw [List.lookup_cons, beq_false_of_ne h, List.lookup_cons, beq_false_of_ne h]
      · rw [List.lookup_cons, List.lookup_cons, ih]

theorem lookup_without_self (k : String) (t : Table α) : (without k t).lookup k = none := by
  induction t with
  | nil => rfl
  | cons b rest ih =>
    obtain ⟨k', a'⟩ := b
    by_cases h : k' = k
    · simpa [without, h] using ih
    · have hb : (k == k') = false := beq_false_of_ne (Ne.symm h)
      simpa [without, h, List.lookup_cons, hb] using ih

theorem lookup_without_of_ne {k j : String} (h : j ≠ k) (t : Table α) :
    (without k t).lookup j = t.lookup j := by
  induction t with
  | nil => rfl
  | cons b rest ih =>
    obtain ⟨k', a'⟩ := b
    by_cases hk : k' = k
    · have hb : (j == k') = false := beq_false_of_ne (hk ▸ h)
      simpa [without, hk, List.lookup_cons, hk ▸ hb] using ih
    · have := ih
      simp only [without] at this
      simp [without, hk, List.lookup_cons, this]

/-- binding several names, each once -/
theorem lookup_foldl_put (bs : List (String × α)) (h : (bs.map Prod.fst).Nodup) (k : String)
    (t : Table α) :
    (bs.foldl (fun t b => put b.1 b.2 t) t).lookup k = (bs.lookup k).or (t.lookup k) := by
  induction bs generalizing t with
  | nil => rfl
  | cons b bs ih =>
    obtain ⟨j, a⟩ := b
    obtain ⟨hj, hbs⟩ := List.nodup_cons.mp h
    rw [List.foldl_cons, ih hbs, List.lookup_cons]
    by_cases e : k = j
    · subst e
      have hk : bs.lookup k = none := by
        rw [List.lookup_eq_none_iff]
        intro c hc
        have hne : k ≠ c.1 := fun e => hj (List.mem_map.mpr ⟨c, hc, e.symm⟩)
        exact bne_iff_ne.mpr hne
      simp [hk, lookup_put_self]
    · rw [beq_false_of_ne e, lookup_put_of_ne e]

theorem lookup_ofList (bs : List (String × α)) (h : (bs.map Prod.fst).Nodup) (k : String) :
    (ofList bs).lookup k = bs.lookup k := by
  show (bs.foldl (fun t b => put b.1 b.2 t) []).lookup k = _
  rw [lookup_foldl_put bs h, List.lookup_nil, Option.or_none]

/-! ## of several bindings the last -/

/-- a binding of a key that no later one takes the place of -/
def IsLast (k : String) (a : α) (bs : List (String × α)) : Prop :=
  ∃ before after, bs = before ++ (k, a) :: after ∧ k ∉ keys after

theorem lookup_foldl_put_reverse (bs : List (String × α)) (k : String) (t : Table α) :
    (bs.foldl (fun t b => put b.1 b.2 t) t).lookup k = (bs.reverse.lookup k).or (t.lookup k) := by
  induction bs generalizing t with
  | nil => rfl
  | cons b bs ih =>
    obtain ⟨j, a⟩ := b
    have hput : (put j a t).lookup k = (List.lookup k [(j, a)]).or (t.lookup k) := by
      by_cases e : k = j
      · subst e
        rw [lookup_put_self, List.lookup_cons_self]
        rfl
      · rw [lookup_put_of_ne e, List.lookup_cons, beq_false_of_ne e]
        rfl
    rw [List.foldl_cons, ih, hput, List.reverse_cons, List.lookup_append, Option.or_assoc]

theorem lookup_ofList_reverse (bs : List (String × α)) (k : String) :
    (ofList bs).lookup k = bs.reverse.lookup k := by
  show (bs.foldl (fun t b => put b.1 b.2 t) []).lookup k = _
  rw [lookup_foldl_put_reverse, List.lookup_nil, Option.or_none]

theorem not_mem_keys_iff {k : String} {bs : List (String × α)} :
    k ∉ keys bs ↔ ∀ b ∈ bs, (k != b.1) = true := by
  unfold keys
  rw [List.mem_map, not_exists]
  refine forall_congr' fun b => ?_
  rw [not_and, bne_iff_ne, ne_comm]

/-- a table reads a key as the last of its bindings -/
theorem lookup_ofList_eq_some_iff (bs : List (String × α)) (k : String) (a : α) :
    (ofList bs).lookup k = some a ↔ IsLast k a bs := by
  rw [lookup_ofList_reverse, List.lookup_eq_some_iff]
  constructor
  · rintro ⟨after, before, hbs, hafter⟩
    refine ⟨before.reverse, after.reverse, ?_, not_mem_keys_iff.mpr fun b hb => ?_⟩
    · rw [← List.reverse_reverse bs, hbs, List.reverse_append, List.reverse_cons, List.append_assoc,
        List.singleton_append]
    · exact hafter b (List.mem_reverse.mp hb)
  · rintro ⟨before, after, hbs, hafter⟩
    refine ⟨after.reverse, before.reverse, ?_, fun b hb => ?_⟩
    · rw [hbs, List.reverse_append, List.reverse_cons, List.append_assoc, List.singleton_append]
    · exact not_mem_keys_iff.mp hafter b (List.mem_reverse.mp hb)

theorem lookup_ofList_eq_none_iff (bs : List (String × α)) (k : String) :
    (ofList bs).lookup k = none ↔ k ∉ keys bs := by
  rw [lookup_ofList_reverse, List.lookup_eq_none_iff, not_mem_keys_iff]
  simp only [List.mem_reverse]

theorem exists_isLast {k : String} {bs : List (String × α)} (h : k ∈ keys bs) :
    ∃ a, IsLast k a bs := by
  cases hlookup : (ofList bs).lookup k with
  | none => exact absurd h ((lookup_ofList_eq_none_iff bs k).mp hlookup)
  | some a => exact ⟨a, (lookup_ofList_eq_some_iff bs k a).mp hlookup⟩

theorem isLast_iff (k : String) (a : α) (bs : List (String × α)) :
    IsLast k a bs ↔ bs.reverse.lookup k = some a := by
  rw [← lookup_ofList_eq_some_iff, lookup_ofList_reverse]

theorem isLast_append_iff (k : String) (a : α) (bs cs : List (String × α)) :
    IsLast k a (bs ++ cs) ↔ IsLast k a cs ∨ k ∉ keys cs ∧ IsLast k a bs := by
  rw [← lookup_ofList_eq_none_iff, lookup_ofList_reverse, isLast_iff, isLast_iff, isLast_iff,
    List.reverse_append, List.lookup_append, Option.or_eq_some_iff]

theorem lookup_map (f : α → β) (bs : List (String × α)) (k : String) :
    (bs.map fun b => (b.1, f b.2)).lookup k = (bs.lookup k).map f := by
  induction bs with
  | nil => rfl
  | cons b bs ih =>
    rw [List.map_cons, List.lookup_cons, List.lookup_cons, ih]
    cases k == b.1 <;> rfl

theorem isLast_map_iff (f : α → β) (k : String) (c : β) (bs : List (String × α)) :
    IsLast k c (bs.map fun b => (b.1, f b.2)) ↔ ∃ a, IsLast k a bs ∧ f a = c := by
  rw [isLast_iff, ← List.map_reverse, lookup_map, Option.map_eq_some_iff]
  simp only [isLast_iff]

/-! ## binding twice -/

theorem put_cons_of_lt {k l : String} (h : k < l) (a c : α) (t : Table α) :
    put k a ((l, c) :: t) = (k, a) :: (l, c) :: t := by
  rw [put, if_pos h]

theorem put_cons_self (k : String) (a c : α) (t : Table α) :
    put k a ((k, c) :: t) = (k, a) :: t := by
  rw [put, if_neg (String.lt_irrefl k), if_pos rfl]

theorem put_cons_of_gt {k l : String} (h : l < k) (a c : α) (t : Table α) :
    put k a ((l, c) :: t) = (l, c) :: put k a t := by
  have hne : k ≠ l := fun e => String.lt_irrefl l (e ▸ h)
  rw [put, if_neg (String.lt_asymm h), if_neg hne]

theorem put_put_self (k : String) (a b : α) (t : Table α) : put k a (put k b t) = put k a t := by
  induction t with
  | nil => exact put_cons_self k a b []
  | cons c rest ih =>
    obtain ⟨l, c⟩ := c
    rcases Std.lt_trichotomy k l with h | rfl | h
    · rw [put_cons_of_lt h, put_cons_of_lt h, put_cons_self]
    · rw [put_cons_self, put_cons_self, put_cons_self]
    · rw [put_cons_of_gt h, put_cons_of_gt h, put_cons_of_gt h, ih]

theorem put_comm_of_lt {k j : String} (h : k < j) (a b : α) (t : Table α) :
    put k a (put j b t) = put j b (put k a t) := by
  induction t with
  | nil => rw [put_nil, put_nil, put_cons_of_lt h, put_cons_of_gt h, put_nil]
  | cons c rest ih =>
    obtain ⟨l, c⟩ := c
    -- both keys are compared with the first of the table, the greater one first
    rcases Std.lt_trichotomy j l with hl | rfl | hl
    · have hkl := String.lt_trans h hl
      rw [put_cons_of_lt hl, put_cons_of_lt h, put_cons_of_lt hkl, put_cons_of_gt h,
        put_cons_of_lt hl]
    · rw [put_cons_self, put_cons_of_lt h, put_cons_of_lt h, put_cons_of_gt h, put_cons_self]
    · rw [put_cons_of_gt hl]
      rcases Std.lt_trichotomy k l with hk | rfl | hk
      · rw [put_cons_of_lt hk, put_cons_of_lt hk, put_cons_of_gt h, put_cons_of_gt hl]
      · rw [put_cons_self, put_cons_self, put_cons_of_gt h]
      · rw [put_cons_of_gt hk, put_cons_of_gt hk, put_cons_of_gt hl, ih]

/-- different keys may be bound in either order -/
theorem put_comm {k j : String} (h : k ≠ j) (a b : α) (t : Table α) :
    put k a (put j b t) = put j b (put k a t) := by
  rcases Std.lt_trichotomy k j with hlt | heq | hgt
  · exact put_comm_of_lt hlt a b t
  · exact absurd heq h
  · exact (put_comm_of_lt hgt b a t).symm

/-! ## key order -/

theorem sorted_nil : Sorted ([] : Table α) := List.Pairwise.nil

theorem mem_put {k : String} {a : α} {b : String × α} {t : Table α} (h : b ∈ put k a t) :
    b = (k, a) ∨ b ∈ t := by
  induction t with
  | nil => exact .inl (List.mem_singleton.mp h)
  | cons c rest ih =>
    obtain ⟨k', a'⟩ := c
    unfold put at h
    split at h
    · exact List.mem_cons.mp h
    · split at h
      · exact (List.mem_cons.mp h).imp_right (List.mem_cons_of_mem _)
      · rcases List.mem_cons.mp h with h | h
        · exact .inr (h ▸ List.mem_cons_self)
        · exact (ih h).imp_right (List.mem_cons_of_mem _)

theorem fst_mem_put {k : String} {a : α} {b : String × α} {t : Table α} (h : b ∈ put k a t) :
    b.1 = k ∨ b ∈ t :=
  (mem_put h).imp_left (congrArg Prod.fst)

theorem sorted_put (k : String) (a : α) {t : Table α} (h : Sorted t) : Sorted (put k a t) := by
  induction t with
  | nil => exact List.pairwise_singleton _ _
  | cons b rest ih =>
    obtain ⟨k', a'⟩ := b
    obtain ⟨hb, hrest⟩ := List.pairwise_cons.mp h
    unfold put
    split
    · rename_i hk
      refine List.Pairwise.cons (fun c hc => ?_) h
      rcases List.mem_cons.mp hc with rfl | hc
      · exact hk
      · exact String.lt_trans hk (hb c hc)
    · split
      · rename_i hk
        subst hk
        exact List.Pairwise.cons hb hrest
      · rename_i hlt hne
        refine List.Pairwise.cons (fun c hc => ?_) (ih hrest)
        rcases fst_mem_put hc with hc | hc
        · show k' < c.1
          rw [hc]
          exact Std.lt_of_le_of_ne (String.not_lt.mp hlt) (Ne.symm hne)
        · exact hb c hc

theorem sorted_foldl_put (bs : List (String × α)) {t : Table α} (h : Sorted t) :
    Sorted (bs.foldl (fun t b => put b.1 b.2 t) t) := by
  induction bs generalizing t with
  | nil => exact h
  | cons b bs ih => exact ih (sorted_put b.1 b.2 h)

theorem sorted_ofList (bs : List (String × α)) : Sorted (ofList bs) :=
  sorted_foldl_put bs sorted_nil

theorem keys_nodup {t : Table α} (h : Sorted t) : (keys t).Nodup := by
  refine List.pairwise_map.mpr (List.Pairwise.imp (fun hlt => ?_) h)
  intro e
  rw [e] at hlt
  exact String.lt_irrefl _ hlt

/-- where no key is bound twice, what is bound to a key is what the key is read as -/
theorem mem_iff_lookup {t : Table α} (h : (keys t).Nodup) (k : String) (a : α) :
    (k, a) ∈ t ↔ t.lookup k = some a := by
  induction t with
  | nil => simp
  | cons b rest ih =>
    obtain ⟨j, c⟩ := b
    obtain ⟨hj, hrest⟩ := List.nodup_cons.mp h
    rw [List.mem_cons, List.lookup_cons]
    by_cases e : k = j
    · subst e
      have hk : (k, a) ∉ rest := fun hm => hj (List.mem_map.mpr ⟨_, hm, rfl⟩)
      simp [hk, eq_comm]
    · have hne : (k, a) ≠ (j, c) := fun h => e (congrArg Prod.fst h)
      simp [beq_false_of_ne e, hne, ih hrest]

theorem mem_of_lookup {t : Table α} (h : Sorted t) {k : String} {a : α} (ha : t.lookup k = some a) :
    (k, a) ∈ t :=
  (mem_iff_lookup (keys_nodup h) k a).mpr ha

/-- sorted tables that read every key alike are the same -/
theorem Sorted.eq_of_lookup {t u : Table α} (ht : Sorted t) (hu : Sorted u)
    (h : ∀ k, t.lookup k = u.lookup k) : t = u := by
  have hmem : ∀ b, b ∈ t ↔ b ∈ u := fun (k, a) => by
    rw [mem_iff_lookup (keys_nodup ht), mem_iff_lookup (keys_nodup hu), h]
  have hnodup : ∀ {v : Table α}, Sorted v → v.Nodup := by
    intro v hv
    refine List.Pairwise.imp (fun hlt => ?_) hv
    rintro rfl
    exact String.lt_irrefl _ hlt
  have hperm : t.Perm u := (List.perm_ext_iff_of_nodup (hnodup ht) (hnodup hu)).mpr hmem
  exact hperm.eq_of_pairwise (fun _ _ _ _ hab hba => absurd hba (String.lt_asymm hab)) ht hu

/-- where no key is bound twice, a key has one binding at most -/
theorem filter_key {t : Table α} (h : (keys t).Nodup) (k : String) :
    (t.filter (·.1 == k)).map Prod.snd = (t.lookup k).toList := by
  induction t with
  | nil => rfl
  | cons b rest ih =>
    obtain ⟨j, c⟩ := b
    obtain ⟨hj, hrest⟩ := List.nodup_cons.mp h
    rw [List.lookup_cons]
    by_cases e : k = j
    · subst e
      have hk : rest.filter (·.1 == k) = [] := by
        rw [List.filter_eq_nil_iff]
        intro b hm he
        exact hj (List.mem_map.mpr ⟨b, hm, beq_iff_eq.mp he⟩)
      simp [hk]
    · rw [List.filter_cons_of_neg (by simpa using Ne.symm e), ih hrest, beq_false_of_ne e]

/-- the table of bindings with different keys has just these -/
theorem mem_ofList {bs : List (String × α)} (h : (bs.map Prod.fst).Nodup) (k : String) (a : α) :
    (k, a) ∈ ofList bs ↔ (k, a) ∈ bs := by
  rw [mem_iff_lookup (keys_nodup (sorted_ofList bs)), lookup_ofList bs h, ← mem_iff_lookup h]

end Table

end Relay
