import RuleAnalysis.Value.Basic

namespace RuleAnalysis

/-!
# Equality of values

Values are equal if they have the same form and equal parts; this is decided
part by part. Values agree already if they are equal but for the signs of
zeros in them.
-/

mutual

def Value.decEq : (a b : Value) → Decidable (a = b)
  | .null, b => by
      cases b with
      | null => exact isTrue rfl
      | _ => exact isFalse nofun
  | .bool x, b => by
      cases b with
      | bool y => exact decidable_of_iff (x = y) (by simp)
      | _ => exact isFalse nofun
  | .number x, b => by
      cases b with
      | number y => exact decidable_of_iff (x = y) (by simp)
      | _ => exact isFalse nofun
  | .string x, b => by
      cases b with
      | string y => exact decidable_of_iff (x = y) (by simp)
      | _ => exact isFalse nofun
  | .list xs, b => by
      cases b with
      | list ys => exact @decidable_of_iff _ (xs = ys) (by simp) (Value.decEqItems xs ys)
      | _ => exact isFalse nofun
  | .map xs, b => by
      cases b with
      | map ys => exact @decidable_of_iff _ (xs = ys) (by simp) (Value.decEqEntries xs ys)
      | _ => exact isFalse nofun
  | .label x, b => by
      cases b with
      | label y => exact decidable_of_iff (x = y) (by simp)
      | _ => exact isFalse nofun
  | .labelPath x, b => by
      cases b with
      | labelPath y => exact decidable_of_iff (x = y) (by simp)
      | _ => exact isFalse nofun
  | .provider x, b => by
      cases b with
      | provider y => exact @decidable_of_iff _ (x = y) (by simp) (Provider.decEq x y)
      | _ => exact isFalse nofun
  | .option x, b => by
      cases b with
      | option y => exact decidable_of_iff (x = y) (by simp)
      | _ => exact isFalse nofun
  | .selection x, b => by
      cases b with
      | selection y => exact @decidable_of_iff _ (x = y) (by simp) (Selection.decEq x y)
      | _ => exact isFalse nofun
  | .globSet x, b => by
      cases b with
      | globSet y => exact decidable_of_iff (x = y) (by simp)
      | _ => exact isFalse nofun

def Value.decEqItems : (xs ys : List Value) → Decidable (xs = ys)
  | [], [] => isTrue rfl
  | [], _ :: _ => isFalse nofun
  | _ :: _, [] => isFalse nofun
  | x :: xs, y :: ys =>
      @decidable_of_iff _ (x = y ∧ xs = ys) (by simp)
        (@instDecidableAnd _ _ (Value.decEq x y) (Value.decEqItems xs ys))

def Value.decEqEntries : (xs ys : List (String × Value)) → Decidable (xs = ys)
  | [], [] => isTrue rfl
  | [], _ :: _ => isFalse nofun
  | _ :: _, [] => isFalse nofun
  | (k, x) :: xs, (l, y) :: ys =>
      @decidable_of_iff _ (k = l ∧ x = y ∧ xs = ys) (by simp [and_assoc])
        (@instDecidableAnd _ _ _
          (@instDecidableAnd _ _ (Value.decEq x y) (Value.decEqEntries xs ys)))

def Value.decEqBranches : (xs ys : List (TypeRef × Value)) → Decidable (xs = ys)
  | [], [] => isTrue rfl
  | [], _ :: _ => isFalse nofun
  | _ :: _, [] => isFalse nofun
  | (k, x) :: xs, (l, y) :: ys =>
      @decidable_of_iff _ (k = l ∧ x = y ∧ xs = ys) (by simp [and_assoc])
        (@instDecidableAnd _ _ _
          (@instDecidableAnd _ _ (Value.decEq x y) (Value.decEqBranches xs ys)))

def Provider.decEq : (p q : Provider) → Decidable (p = q)
  | ⟨r, xs⟩, ⟨s, ys⟩ =>
      @decidable_of_iff _ (r = s ∧ xs = ys) (by simp)
        (@instDecidableAnd _ _ _ (Value.decEqEntries xs ys))

def Selection.decEq : (s t : Selection) → Decidable (s = t)
  | ⟨xs, x⟩, ⟨ys, y⟩ =>
      @decidable_of_iff _ (xs = ys ∧ x = y) (by simp)
        (@instDecidableAnd _ _ (Value.decEqBranches xs ys) (Value.decEq x y))

end

instance : DecidableEq Value := Value.decEq

instance : DecidableEq Provider := Provider.decEq

instance : DecidableEq Selection := Selection.decEq

/-! ## Agreement -/

mutual

/-- Changes the numbers in a value, however deep they lie. -/
def Value.mapNumbers (f : Number → Number) : Value → Value
  | .number n => .number (f n)
  | .list items => .list (Value.mapNumbersOfItems f items)
  | .map entries => .map (Value.mapNumbersOfEntries f entries)
  | .provider p => .provider (Provider.mapNumbers f p)
  | .selection s => .selection (Selection.mapNumbers f s)
  | value => value

def Value.mapNumbersOfItems (f : Number → Number) : List Value → List Value
  | [] => []
  | item :: rest => Value.mapNumbers f item :: Value.mapNumbersOfItems f rest

def Value.mapNumbersOfEntries (f : Number → Number) :
    List (String × Value) → List (String × Value)
  | [] => []
  | (key, value) :: rest => (key, Value.mapNumbers f value) :: Value.mapNumbersOfEntries f rest

def Value.mapNumbersOfBranches (f : Number → Number) :
    List (TypeRef × Value) → List (TypeRef × Value)
  | [] => []
  | (option, value) :: rest =>
      (option, Value.mapNumbers f value) :: Value.mapNumbersOfBranches f rest

def Provider.mapNumbers (f : Number → Number) : Provider → Provider
  | ⟨reference, data⟩ => ⟨reference, Value.mapNumbersOfEntries f data⟩

def Selection.mapNumbers (f : Number → Number) : Selection → Selection
  | ⟨mapping, value⟩ => ⟨Value.mapNumbersOfBranches f mapping, Value.mapNumbers f value⟩

end

/-- The provider as it is compared with others: no zero in its data has a sign. -/
def Provider.withUnsignedZeros (p : Provider) : Provider :=
  p.mapNumbers Number.withUnsignedZero

end RuleAnalysis
