import ConditionTree.Diff
import Mathlib.Data.List.Basic

/-!
# Shortest scripts

The table of the difference is filled from the right, row by row. `route` is the recursion behind it (`script_eq`): what
is the same is kept, and else the cheaper of a deletion and an insertion comes first. A script leads from the list of
what it keeps and deletes to the list of what it keeps and inserts; of all scripts from one list to another that of the
table changes the least (`changes_script_le`), and between two items that it keeps it deletes before it inserts
(`deletionsFirst_script`).
-/

namespace ConditionTree.Diff

variable {α β : Type}

@[simp] theorem Route.cost_done : (done : Route α).cost = 0 := rfl
@[simp] theorem Route.cost_keep (x : α) (r : Route α) : (r.keep x).cost = r.cost := rfl
@[simp] theorem Route.cost_delete (x : α) (r : Route α) : (r.delete x).cost = r.cost + 1 := rfl
@[simp] theorem Route.cost_insert (x : α) (r : Route α) : (r.insert x).cost = r.cost + 1 := rfl

@[simp] theorem Route.steps_done : (done : Route α).steps = [] := rfl
@[simp] theorem Route.steps_keep (x : α) (r : Route α) : (r.keep x).steps = .keep x :: r.steps := rfl
@[simp] theorem Route.steps_delete (x : α) (r : Route α) : (r.delete x).steps = .delete x :: r.steps := rfl
@[simp] theorem Route.steps_insert (x : α) (r : Route α) : (r.insert x).steps = .insert x :: r.steps := rfl

namespace Step

/-- The item of the old list that the step takes up. -/
def old? : Step α → Option α
  | keep x | delete x => some x
  | insert _ => none

/-- The item of the new list that the step gives. -/
def new? : Step α → Option α
  | keep x | insert x => some x
  | delete _ => none

def isChange : Step α → Bool
  | keep _ => false
  | delete _ | insert _ => true

def map (f : α → β) : Step α → Step β
  | keep x => keep (f x)
  | delete x => delete (f x)
  | insert x => insert (f x)

/-- The step back. -/
def back : Step α → Step α
  | keep x => keep x
  | delete x => insert x
  | insert x => delete x

end Step

/-- The list that a script starts from. -/
def olds (s : List (Step α)) : List α :=
  s.filterMap Step.old?

/-- The list that a script leads to. -/
def news (s : List (Step α)) : List α :=
  s.filterMap Step.new?

/-- How many items a script deletes or inserts. -/
def changes (s : List (Step α)) : Nat :=
  s.countP Step.isChange

/-- Something is kept between an insertion and a later deletion. -/
def DeletionsFirst (s : List (Step α)) : Prop :=
  ∀ front y middle x back, s = front ++ .insert y :: (middle ++ .delete x :: back) → ∃ z, .keep z ∈ middle

variable {x y : α} {xs ys : List α} {s : List (Step α)}

@[simp] theorem olds_nil : olds ([] : List (Step α)) = [] := rfl
@[simp] theorem olds_keep : olds (.keep x :: s) = x :: olds s := rfl
@[simp] theorem olds_delete : olds (.delete x :: s) = x :: olds s := rfl
@[simp] theorem olds_insert : olds (.insert x :: s) = olds s := rfl

@[simp] theorem news_nil : news ([] : List (Step α)) = [] := rfl
@[simp] theorem news_keep : news (.keep x :: s) = x :: news s := rfl
@[simp] theorem news_delete : news (.delete x :: s) = news s := rfl
@[simp] theorem news_insert : news (.insert x :: s) = x :: news s := rfl

@[simp] theorem changes_nil : changes ([] : List (Step α)) = 0 := rfl
@[simp] theorem changes_keep : changes (.keep x :: s) = changes s :=
  List.countP_cons_of_neg Bool.false_ne_true
@[simp] theorem changes_delete : changes (.delete x :: s) = changes s + 1 := List.countP_cons_of_pos rfl
@[simp] theorem changes_insert : changes (.insert x :: s) = changes s + 1 := List.countP_cons_of_pos rfl

/-! ### Scripts in general -/

@[simp] theorem olds_map (f : α → β) (s : List (Step α)) : olds (s.map (Step.map f)) = (olds s).map f := by
  rw [olds, olds, List.filterMap_map, List.map_filterMap]
  congr 1
  funext step
  cases step <;> rfl

@[simp] theorem news_map (f : α → β) (s : List (Step α)) : news (s.map (Step.map f)) = (news s).map f := by
  rw [news, news, List.filterMap_map, List.map_filterMap]
  congr 1
  funext step
  cases step <;> rfl

@[simp] theorem changes_map (f : α → β) (s : List (Step α)) : changes (s.map (Step.map f)) = changes s := by
  rw [changes, changes, List.countP_map]
  congr 1
  funext step
  cases step <;> rfl

@[simp] theorem olds_back (s : List (Step α)) : olds (s.map Step.back) = news s := by
  rw [olds, news, List.filterMap_map]
  congr 1
  funext step
  cases step <;> rfl

@[simp] theorem news_back (s : List (Step α)) : news (s.map Step.back) = olds s := by
  rw [olds, news, List.filterMap_map]
  congr 1
  funext step
  cases step <;> rfl

@[simp] theorem changes_back (s : List (Step α)) : changes (s.map Step.back) = changes s := by
  rw [changes, changes, List.countP_map]
  congr 1
  funext step
  cases step <;> rfl

theorem olds_eq_news (h : changes s = 0) : olds s = news s := by
  induction s with
  | nil => rfl
  | cons step s ih => cases step <;> simp_all

theorem changes_keeps (xs : List α) : changes (xs.map Step.keep) = 0 := by
  induction xs with
  | nil => rfl
  | cons x xs ih => rw [List.map_cons, changes_keep, ih]

theorem olds_keeps (xs : List α) : olds (xs.map Step.keep) = xs := by
  induction xs with
  | nil => rfl
  | cons x xs ih => rw [List.map_cons, olds_keep, ih]

/-- A script need not take up the first of the old items: it inserts what it kept, or saves a deletion. -/
theorem exists_without_old (h : olds s = x :: xs) :
    ∃ s', olds s' = xs ∧ news s' = news s ∧ changes s' ≤ changes s + 1 := by
  induction s with
  | nil => cases h
  | cons step s ih =>
    cases step with
    | keep z =>
      obtain ⟨-, hs⟩ := List.cons_eq_cons.mp h
      exact ⟨.insert z :: s, hs, rfl, by simp⟩
    | delete z =>
      obtain ⟨-, hs⟩ := List.cons_eq_cons.mp h
      exact ⟨s, hs, rfl, by simp; omega⟩
    | insert z =>
      obtain ⟨s', hold, hnew, hchanges⟩ := ih h
      exact ⟨.insert z :: s', hold, by rw [news_insert, news_insert, hnew], by simp; omega⟩

theorem exists_without_new (h : news s = y :: ys) :
    ∃ s', olds s' = olds s ∧ news s' = ys ∧ changes s' ≤ changes s + 1 := by
  obtain ⟨s', hold, hnew, hchanges⟩ := exists_without_old (s := s.map Step.back) (by rw [olds_back, h])
  exact ⟨s'.map Step.back, by rw [olds_back, hnew, news_back], by rw [news_back, hold],
    by rwa [changes_back, ← changes_back s]⟩

/-- A script whose lists start differently starts with a change. -/
theorem exists_change (hne : x ≠ y) (hold : olds s = x :: xs) (hnew : news s = y :: ys) :
    (∃ s', s = .delete x :: s' ∧ olds s' = xs ∧ news s' = y :: ys) ∨
    ∃ s', s = .insert y :: s' ∧ olds s' = x :: xs ∧ news s' = ys := by
  cases s with
  | nil => cases hold
  | cons step s =>
    cases step with
    | keep z => exact absurd ((List.cons_eq_cons.mp hold).1.symm.trans (List.cons_eq_cons.mp hnew).1) hne
    | delete z =>
      obtain ⟨rfl, hs⟩ := List.cons_eq_cons.mp hold
      exact .inl ⟨s, rfl, hs, hnew⟩
    | insert z =>
      obtain ⟨rfl, hs⟩ := List.cons_eq_cons.mp hnew
      exact .inr ⟨s, rfl, hold, hs⟩

/-- A script whose lists start with the same item can be had for less by keeping it: what else the script does with one
of the two can be left out. -/
theorem exists_keep (hold : olds s = x :: xs) (hnew : news s = x :: ys) :
    ∃ s', olds s' = xs ∧ news s' = ys ∧ changes s' ≤ changes s := by
  cases s with
  | nil => cases hold
  | cons step s =>
    cases step with
    | keep z =>
      exact ⟨s, (List.cons_eq_cons.mp hold).2, (List.cons_eq_cons.mp hnew).2, Nat.le_of_eq changes_keep.symm⟩
    | delete z =>
      obtain ⟨s', hold', hnew', hchanges⟩ := exists_without_new (s := s) hnew
      exact ⟨s', hold'.trans (List.cons_eq_cons.mp hold).2, hnew', by rwa [changes_delete]⟩
    | insert z =>
      obtain ⟨s', hold', hnew', hchanges⟩ := exists_without_old (s := s) hold
      exact ⟨s', hold', hnew'.trans (List.cons_eq_cons.mp hnew).2, by rwa [changes_insert]⟩

/-! ### Deletions first -/

namespace DeletionsFirst

theorem nil : DeletionsFirst ([] : List (Step α)) := by
  intro front y middle x back h
  simp at h

/-- A step that is no insertion does no harm. -/
theorem cons_of_ne {step : Step α} (h : DeletionsFirst s) (hstep : ∀ y, step ≠ .insert y) :
    DeletionsFirst (step :: s) := by
  intro front y middle x back hs
  cases front with
  | nil => exact absurd (List.cons_eq_cons.mp hs).1 (hstep y)
  | cons first front => exact h front y middle x back (List.cons_eq_cons.mp hs).2

/-- An insertion does no harm before anything but a deletion. -/
theorem cons_insert (h : DeletionsFirst s) (hhead : ∀ x s', s ≠ .delete x :: s') : DeletionsFirst (.insert y :: s) := by
  intro front y' middle x back hs
  cases front with
  | cons first front => exact h front y' middle x back (List.cons_eq_cons.mp hs).2
  | nil =>
    obtain ⟨-, hs⟩ := List.cons_eq_cons.mp hs
    cases middle with
    | nil => exact absurd hs (hhead x back)
    | cons step middle =>
      cases step with
      | keep z => exact ⟨z, List.mem_cons_self⟩
      | delete z => exact absurd hs (hhead z _)
      | insert z =>
        obtain ⟨z', hz'⟩ := h [] z middle x back hs
        exact ⟨z', List.mem_cons_of_mem _ hz'⟩

end DeletionsFirst

/-! ### The table -/

variable [DecidableEq α]

/-- The route from one list to another. -/
def route : List α → List α → Route α
  | [], [] => .done
  | [], y :: ys => (route [] ys).insert y
  | x :: xs, [] => (route xs []).delete x
  | x :: xs, y :: ys =>
    if x = y then (route xs ys).keep x
    else if (route xs (y :: ys)).cost ≤ (route (x :: xs) ys).cost then (route xs (y :: ys)).delete x
    else (route (x :: xs) ys).insert y
termination_by xs ys => xs.length + ys.length

/-- The row that holds the values of a function at the tails of a list. -/
def Row.tabulate (f : List α → Route α) : List α → Row α
  | [] => ⟨[], f []⟩
  | y :: ys => ⟨(y, f (y :: ys)) :: (tabulate f ys).items, (tabulate f ys).last⟩

namespace Row

omit [DecidableEq α]

theorem last_tabulate (f : List α → Route α) (ys : List α) : (tabulate f ys).last = f [] := by
  induction ys with
  | nil => rfl
  | cons y ys ih => exact ih

theorem first_tabulate (f : List α → Route α) (ys : List α) : firstRoute (tabulate f ys).items (f []) = f ys := by
  cases ys <;> rfl

end Row

theorem start_eq (ys : List α) : Row.start ys = Row.tabulate (route []) ys := by
  induction ys with
  | nil => rw [Row.start, Row.tabulate, route]
  | cons y ys ih =>
    rw [Row.start, ih, Row.tabulate, route, Row.first, Row.last_tabulate, Row.first_tabulate]

theorem extendItems_eq (x : α) (xs ys : List α) :
    extendItems x (route xs []) (Row.tabulate (route xs) ys).items = (Row.tabulate (route (x :: xs)) ys).items := by
  induction ys with
  | nil => rfl
  | cons y ys ih =>
    have hright : firstRoute (Row.tabulate (route (x :: xs)) ys).items ((route xs []).delete x) =
        route (x :: xs) ys := by
      rw [← Row.first_tabulate (route (x :: xs)) ys, route]
    rw [Row.tabulate, extendItems, ih, Row.first_tabulate, hright, Row.tabulate, route.eq_def (x :: xs) (y :: ys)]

/-- One row of the table comes from the one below it. -/
theorem extend_eq (x : α) (xs ys : List α) :
    (Row.tabulate (route xs) ys).extend x = Row.tabulate (route (x :: xs)) ys := by
  have hlast : (Row.tabulate (route (x :: xs)) ys).last = (route xs []).delete x := by
    rw [Row.last_tabulate, route]
  rw [Row.extend, Row.last_tabulate, extendItems_eq, ← hlast]

theorem table_eq (old new : List α) : old.foldr Row.extend (Row.start new) = Row.tabulate (route old) new := by
  induction old with
  | nil => exact start_eq new
  | cons x xs ih => rw [List.foldr_cons, ih, extend_eq]

/-- **The table finds the route.** -/
theorem script_eq (old new : List α) : script old new = (route old new).steps := by
  rw [script, table_eq, Row.first, Row.last_tabulate, Row.first_tabulate]

/-! ### The route -/

theorem olds_route (old new : List α) : olds (route old new).steps = old := by
  fun_induction route old new <;> simp_all

theorem news_route (old new : List α) : news (route old new).steps = new := by
  fun_induction route old new <;> simp_all

theorem changes_route (old new : List α) : changes (route old new).steps = (route old new).cost := by
  fun_induction route old new <;> simp_all

/-- **No script costs less than the route.** The induction is along the route. What is taken of a script is its first
step, or what is left of it without the two items that the route keeps. -/
theorem cost_route_le (hold : olds s = xs) (hnew : news s = ys) : (route xs ys).cost ≤ changes s := by
  fun_induction route xs ys generalizing s with
  | case1 => exact Nat.zero_le _
  | case2 y ys ih =>
    cases s with
    | nil => cases hnew
    | cons step s =>
      cases step with
      | keep | delete => cases hold
      | insert z =>
        rw [Route.cost_insert, changes_insert]
        exact Nat.succ_le_succ (ih hold (List.cons_eq_cons.mp hnew).2)
  | case3 x xs ih =>
    cases s with
    | nil => cases hold
    | cons step s =>
      cases step with
      | keep | insert => cases hnew
      | delete z =>
        rw [Route.cost_delete, changes_delete]
        exact Nat.succ_le_succ (ih (List.cons_eq_cons.mp hold).2 hnew)
  | case4 xs y ys ih =>
    obtain ⟨s', hold', hnew', hchanges⟩ := exists_keep hold hnew
    exact Nat.le_trans (ih hold' hnew') hchanges
  | case5 x xs y ys hne hle ihdelete ihinsert =>
    rw [Route.cost_delete]
    rcases exists_change hne hold hnew with ⟨s', rfl, hold', hnew'⟩ | ⟨s', rfl, hold', hnew'⟩
    · have hrest := ihdelete hold' hnew'
      rw [changes_delete]
      omega
    · have hrest := ihinsert hold' hnew'
      rw [changes_insert]
      omega
  | case6 x xs y ys hne hle ihdelete ihinsert =>
    rw [Route.cost_insert]
    rcases exists_change hne hold hnew with ⟨s', rfl, hold', hnew'⟩ | ⟨s', rfl, hold', hnew'⟩
    · have hrest := ihdelete hold' hnew'
      rw [changes_delete]
      omega
    · have hrest := ihinsert hold' hnew'
      rw [changes_insert]
      omega

theorem deletionsFirst_route (old new : List α) : DeletionsFirst (route old new).steps := by
  fun_induction route old new with
  | case1 => exact .nil
  | case2 y ys ih =>
    refine ih.cons_insert fun z s' hs => ?_
    have hold := olds_route [] ys
    rw [hs] at hold
    cases hold
  | case3 x xs ih => exact ih.cons_of_ne fun y h => by cases h
  | case4 xs y ys ih => exact ih.cons_of_ne fun y h => by cases h
  | case5 x xs y ys hne hle ihdelete ihinsert => exact ihdelete.cons_of_ne fun y h => by cases h
  | case6 x xs y ys hne hle ihdelete ihinsert =>
    -- if a deletion came next, it could as well come first and the table would have taken it
    refine ihinsert.cons_insert fun z s' hs => hle ?_
    have hold := olds_route (x :: xs) ys
    have hnew := news_route (x :: xs) ys
    have hcost := changes_route (x :: xs) ys
    rw [hs] at hold hnew hcost
    obtain ⟨rfl, hold'⟩ := List.cons_eq_cons.mp hold
    have hbelow : (route xs (y :: ys)).cost ≤ changes (.insert y :: s') :=
      cost_route_le hold' (congrArg (y :: ·) hnew)
    rwa [changes_insert, ← changes_delete, hcost] at hbelow

/-! ### The script -/

@[simp] theorem olds_script (old new : List α) : olds (script old new) = old := by
  rw [script_eq, olds_route]

@[simp] theorem news_script (old new : List α) : news (script old new) = new := by
  rw [script_eq, news_route]

theorem deletionsFirst_script (old new : List α) : DeletionsFirst (script old new) := by
  rw [script_eq]
  exact deletionsFirst_route old new

/-- **Of all scripts from one list to another the table finds a shortest one.** -/
theorem changes_script_le (s : List (Step α)) : changes (script (olds s) (news s)) ≤ changes s := by
  rw [script_eq, changes_route]
  exact cost_route_le rfl rfl

/-- Nothing changes exactly if there is nothing to change. -/
theorem changes_script_eq_zero_iff {old new : List α} : changes (script old new) = 0 ↔ old = new := by
  constructor
  · intro h
    rw [← olds_script old new, olds_eq_news h, news_script]
  · rintro rfl
    have hle := changes_script_le (old.map Step.keep)
    rw [← olds_eq_news (changes_keeps old), olds_keeps, changes_keeps] at hle
    exact Nat.le_zero.mp hle

end ConditionTree.Diff
