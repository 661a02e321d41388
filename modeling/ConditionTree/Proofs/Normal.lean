import ConditionTree.Json5.Reader
import ConditionTree.Proofs.Pointers
import ConditionTree.Proofs.Wire

/-!
# Normal values

What a document holds: keys that increase, whole numbers of 64 bits and finite doubles. Documents that were read are of
this kind, and so are trees of finite numbers in their JSON form; a value that is put into another one at a pointer
leaves it so.
-/

namespace ConditionTree

namespace Json

mutual

/-- A value that is as a document holds it. -/
def IsNormal : Json → Prop
  | null | bool _ | string _ => True
  | int n => -0x8000000000000000 ≤ n ∧ n < 0x10000000000000000
  | double x => x.isFinite
  | array items => AreNormal items
  | object members => (members.map (·.1)).Pairwise (· < ·) ∧ HoldNormal members

def AreNormal : List Json → Prop
  | [] => True
  | item :: rest => item.IsNormal ∧ AreNormal rest

def HoldNormal : List (String × Json) → Prop
  | [] => True
  | (_, value) :: rest => value.IsNormal ∧ HoldNormal rest

end

variable {v : Json} {items : List Json} {members : List (String × Json)} {key : String}

theorem areNormal_iff : AreNormal items ↔ ∀ v ∈ items, v.IsNormal := by
  induction items with
  | nil => simp [AreNormal]
  | cons v rest ih => simp [AreNormal, ih]

theorem holdNormal_iff : HoldNormal members ↔ ∀ kv ∈ members, kv.2.IsNormal := by
  induction members with
  | nil => simp [HoldNormal]
  | cons kv rest ih => simp [HoldNormal, ih]

/-! ### Normal values stay as they are -/

theorem insertNew_of_lt (h : ∀ k ∈ members.map (·.1), key < k) : insertNew key v members = (key, v) :: members := by
  cases members with
  | nil => rfl
  | cons kv rest =>
    have hlt : key < kv.1 := h kv.1 (by simp)
    have hne : key ≠ kv.1 := fun heq => String.lt_irrefl kv.1 (heq ▸ hlt)
    rw [insertNew, if_neg hne, if_pos hlt]

mutual

theorem normal_of_isNormal : ∀ {v : Json}, v.IsNormal → v.normal = v
  | null, _ | bool _, _ | string _, _ | int _, _ => rfl
  | double _, h => if_pos h
  | array _, h => congrArg array (normalItems_of_areNormal h)
  | object _, h => congrArg object (normalMembers_of_holdNormal h.1 h.2)

theorem normalItems_of_areNormal : ∀ {items : List Json}, AreNormal items → normalItems items = items
  | [], _ => rfl
  | _ :: _, h => by rw [normalItems, normal_of_isNormal h.1, normalItems_of_areNormal h.2]

theorem normalMembers_of_holdNormal : ∀ {members : List (String × Json)}, (members.map (·.1)).Pairwise (· < ·) →
    HoldNormal members → normalMembers members = members
  | [], _, _ => rfl
  | (_, _) :: _, hkeys, h => by
    obtain ⟨hkey, hrest⟩ := List.pairwise_cons.mp hkeys
    rw [normalMembers, normal_of_isNormal h.1, normalMembers_of_holdNormal hrest h.2, insertNew_of_lt hkey]

end

/-! ### What is read becomes normal -/

theorem mem_keys_insertNew {k : String} :
    k ∈ (insertNew key v members).map (·.1) ↔ k = key ∨ k ∈ members.map (·.1) := by
  induction members with
  | nil => simp [insertNew]
  | cons kv rest ih =>
    rw [insertNew]
    split_ifs with heq hlt
    · simp [heq]
    · simp
    · rw [List.map_cons, List.mem_cons, ih, List.map_cons, List.mem_cons]
      exact or_left_comm

theorem pairwise_insertNew (h : (members.map (·.1)).Pairwise (· < ·)) :
    ((insertNew key v members).map (·.1)).Pairwise (· < ·) := by
  induction members with
  | nil => simp [insertNew]
  | cons kv rest ih =>
    obtain ⟨hkey, hrest⟩ := List.pairwise_cons.mp h
    rw [insertNew]
    split_ifs with heq hlt
    · exact h
    · refine List.pairwise_cons.mpr ⟨fun k hk => ?_, h⟩
      rcases List.mem_cons.mp hk with rfl | hk
      · exact hlt
      · exact String.lt_trans hlt (hkey k hk)
    · refine List.pairwise_cons.mpr ⟨fun k hk => ?_, ih hrest⟩
      rcases mem_keys_insertNew.mp hk with rfl | hk
      · have hle : kv.1 ≤ k := String.not_lt.mp hlt
        by_contra hnot
        exact heq (String.le_antisymm (String.not_lt.mp hnot) hle)
      · exact hkey k hk

theorem holdNormal_insertNew (hv : v.IsNormal) (h : HoldNormal members) : HoldNormal (insertNew key v members) := by
  induction members with
  | nil => exact ⟨hv, trivial⟩
  | cons kv rest ih =>
    rw [insertNew]
    split_ifs with heq hlt
    · exact h
    · exact ⟨hv, h⟩
    · exact ⟨h.1, ih h.2⟩

theorem isNormal_normal_double (x : Double) : (double x).normal.IsNormal := by
  rw [normal]
  split_ifs with hx
  · exact hx
  · trivial

end Json

namespace Json5

open Json

variable {v : Json} {cs rest : List Char} {negative : Bool}

/-- A whole number that is read is one of 64 bits, or no whole number any more. -/
theorem isNormal_whole (negative : Bool) (n : Nat) : (whole negative n).normal.IsNormal := by
  unfold whole
  generalize (if negative then -(n : Int) else n) = i
  dsimp only
  split_ifs with hfits
  · exact hfits
  · exact isNormal_normal_double _

theorem isNormal_hexadecimal (h : hexadecimal negative cs = some (v, rest)) : v.normal.IsNormal := by
  unfold hexadecimal at h
  obtain ⟨n, -, h⟩ := Option.bind_eq_some_iff.mp h
  split_ifs at h <;> cases h <;> exact isNormal_whole negative n

theorem isNormal_decimal (h : decimal negative cs = some (v, rest)) : v.normal.IsNormal := by
  unfold decimal at h
  obtain ⟨⟨n, rest'⟩, -, h⟩ := Option.bind_eq_some_iff.mp h
  dsimp only at h
  split at h
  · cases h
  · split_ifs at h <;> cases h
    · exact isNormal_whole negative _
    · exact isNormal_normal_double _

theorem isNormal_unsigned (h : unsigned negative cs = some (v, rest)) : v.normal.IsNormal := by
  unfold unsigned at h
  split at h
  · cases h
    exact isNormal_normal_double _
  · cases h
    exact isNormal_normal_double _
  · exact isNormal_hexadecimal h
  · exact isNormal_hexadecimal h
  · exact isNormal_decimal h

theorem isNormal_number (h : number cs = some (v, rest)) : v.normal.IsNormal := by
  unfold number at h
  split at h <;> exact isNormal_unsigned h

theorem isNormal_scalar (h : scalar cs = some (v, rest)) : v.normal.IsNormal := by
  unfold scalar at h
  split at h
  case h_6 => exact isNormal_number h
  case h_4 | h_5 =>
    obtain ⟨_, -, heq⟩ := Option.map_eq_some_iff.mp h
    cases heq
    trivial
  all_goals
    cases h
    trivial

/-- Whatever the calls of the reader return becomes normal. -/
theorem isNormal_of_value (fuel : Nat) :
    (∀ cs v rest, value fuel cs = some (v, rest) → v.normal.IsNormal) ∧
    (∀ cs vs rest, items fuel cs = some (vs, rest) → AreNormal (normalItems vs)) ∧
    ∀ cs kvs rest, members fuel cs = some (kvs, rest) → (normal (.object kvs)).IsNormal := by
  induction fuel with
  | zero => exact ⟨by simp [value], by simp [items], by simp [members]⟩
  | succ fuel ih =>
    obtain ⟨ihvalue, ihitems, ihmembers⟩ := ih
    refine ⟨fun cs v rest h => ?_, fun cs vs rest h => ?_, fun cs kvs rest h => ?_⟩
    · rw [value] at h
      obtain ⟨cs', -, h⟩ := Option.bind_eq_some_iff.mp h
      dsimp only at h
      split at h
      · obtain ⟨⟨vs, rest'⟩, hitems, h⟩ := Option.bind_eq_some_iff.mp h
        cases h
        exact ihitems _ vs _ hitems
      · obtain ⟨⟨kvs, rest'⟩, hmembers, h⟩ := Option.bind_eq_some_iff.mp h
        cases h
        exact ihmembers _ kvs _ hmembers
      · exact isNormal_scalar h
    · rw [items] at h
      obtain ⟨cs', -, h⟩ := Option.bind_eq_some_iff.mp h
      dsimp only at h
      split at h
      · cases h
        trivial
      · obtain ⟨⟨v, rest'⟩, hvalue, h⟩ := Option.bind_eq_some_iff.mp h
        obtain ⟨cs'', -, h⟩ := Option.bind_eq_some_iff.mp h
        have hv := ihvalue _ v _ hvalue
        dsimp only at h
        split at h
        · obtain ⟨⟨more, rest''⟩, hitems, h⟩ := Option.bind_eq_some_iff.mp h
          cases h
          exact ⟨hv, ihitems _ more _ hitems⟩
        · cases h
          exact ⟨hv, trivial⟩
        · cases h
    · rw [members] at h
      obtain ⟨cs', -, h⟩ := Option.bind_eq_some_iff.mp h
      dsimp only at h
      split at h
      · cases h
        exact ⟨.nil, trivial⟩
      · obtain ⟨⟨name, rest'⟩, -, h⟩ := Option.bind_eq_some_iff.mp h
        obtain ⟨cs'', -, h⟩ := Option.bind_eq_some_iff.mp h
        dsimp only at h
        split at h
        · obtain ⟨⟨v, rest''⟩, hvalue, h⟩ := Option.bind_eq_some_iff.mp h
          obtain ⟨cs', -, h⟩ := Option.bind_eq_some_iff.mp h
          have hv := ihvalue _ v _ hvalue
          dsimp only at h
          split at h
          · obtain ⟨⟨more, rest'⟩, hmembers, h⟩ := Option.bind_eq_some_iff.mp h
            cases h
            obtain ⟨hkeys, hmore⟩ := ihmembers _ more _ hmembers
            exact ⟨pairwise_insertNew hkeys, holdNormal_insertNew hv hmore⟩
          · cases h
            exact ⟨List.pairwise_singleton _ _, hv, trivial⟩
          · cases h
        · cases h

/-- **A document that was read is normal.** -/
theorem isNormal_document {text : String} (h : document? text = some v) : v.IsNormal := by
  obtain ⟨w, hw, rfl⟩ := Option.map_eq_some_iff.mp h
  obtain ⟨⟨w', rest⟩, hvalue, hw⟩ := Option.bind_eq_some_iff.mp hw
  obtain ⟨cs, -, hw⟩ := Option.bind_eq_some_iff.mp hw
  split at hw
  · cases hw
    exact (isNormal_of_value _).1 _ _ _ hvalue
  · cases hw

end Json5

/-! ### What is written is normal -/

namespace Condition

theorem isNormal_numberJson (x : Double) : (numberJson x).IsNormal := by
  unfold numberJson
  split
  · rename_i n hn
    split_ifs with hi
    · constructor <;> omega
    · cases x with
      | finite => rfl
      | infinite | nan => cases hn
  · split_ifs with hx
    · exact hx
    · trivial

/-- Keys are written in their order. -/
theorem isNormal_toJson (c : Condition) : c.toJson.IsNormal := by
  have hnumber : ["expr", "value"].Pairwise (· < ·) := by decide
  have hreference : ["expr", "ref"].Pairwise (· < ·) := by decide
  have hsides : ["expr", "left", "right"].Pairwise (· < ·) := by decide
  have hgroup : ["child", "expr", "operator"].Pairwise (· < ·) := by decide
  induction c with
  | number x => exact ⟨hnumber, trivial, isNormal_numberJson x, trivial⟩
  | reference s =>
    cases s with
    | none => exact ⟨List.pairwise_singleton _ _, trivial, trivial⟩
    | some s => exact ⟨hreference, trivial, trivial, trivial⟩
  | comparison o l r ihl ihr | boolean o l r ihl ihr => exact ⟨hsides, trivial, ihl, ihr, trivial⟩
  | group o child ih => exact ⟨hgroup, ih, trivial, trivial, trivial⟩

end Condition

/-! ### Putting a normal value into another one -/

namespace Json

variable {v w new root r : Json} {token : String}

theorem isNormal_of_below? (hv : v.IsNormal) (h : v.below? token = some w) : w.IsNormal := by
  cases v with
  | object members =>
    obtain ⟨_, _, rfl, -⟩ := List.lookup_eq_some_iff.mp h
    exact holdNormal_iff.mp hv.2 (token, w) (by simp)
  | array items =>
    obtain ⟨i, -, hi⟩ := Option.bind_eq_some_iff.mp h
    exact areNormal_iff.mp hv w (List.mem_of_getElem? hi)
  | _ => cases h

theorem keys_replaceMember (new : Json) : ∀ members : List (String × Json),
    (replaceMember token new members).map (·.1) = members.map (·.1)
  | [] => rfl
  | (k, v) :: rest => by
    rw [replaceMember]
    split_ifs
    · rfl
    · rw [List.map_cons, List.map_cons, keys_replaceMember new rest]

theorem holdNormal_replaceMember (hnew : new.IsNormal) : ∀ {members : List (String × Json)}, HoldNormal members →
    HoldNormal (replaceMember token new members)
  | [], _ => trivial
  | (k, v) :: rest, h => by
    rw [replaceMember]
    split_ifs
    · exact ⟨hnew, h.2⟩
    · exact ⟨h.1, holdNormal_replaceMember hnew h.2⟩

theorem isNormal_putBelow (hv : v.IsNormal) (hnew : new.IsNormal) : (v.putBelow token new).IsNormal := by
  cases v with
  | object members =>
    refine ⟨?_, holdNormal_replaceMember hnew hv.2⟩
    rw [keys_replaceMember]
    exact hv.1
  | array items =>
    rw [putBelow]
    cases index? token with
    | none => exact hv
    | some i =>
      refine areNormal_iff.mpr fun u hu => ?_
      rcases List.mem_or_eq_of_mem_set hu with hu | rfl
      · exact areNormal_iff.mp hv u hu
      · exact hnew
  | _ => exact hv

/-- **A document stays normal** when a normal value is put in at a pointer. -/
theorem isNormal_setAt? (hnew : new.IsNormal) : ∀ {ts : List String} {root r : Json}, root.IsNormal →
    setAt? new root ts = some r → r.IsNormal
  | [], root, r, _, h => by
    rw [setAt?_nil] at h
    cases h
    exact hnew
  | token :: ts, root, r, hroot, h => by
    rw [setAt?_cons] at h
    obtain ⟨u, hu, h⟩ := Option.bind_eq_some_iff.mp h
    obtain ⟨w, hw, rfl⟩ := Option.map_eq_some_iff.mp h
    exact isNormal_putBelow hroot (isNormal_setAt? hnew (isNormal_of_below? hroot hu) hw)

end Json

end ConditionTree
