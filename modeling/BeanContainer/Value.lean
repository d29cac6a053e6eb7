import BeanContainer.Number.Double

/-!
Free-form data: constructor arguments, property values and configuration files
are made of it. Numbers keep the way they were written apart: an integer is
never the same value as a number with a point. The fields of an object stand in
the order of their names, each name once, so equality of objects ignores how
they were written.
-/

namespace BeanContainer

/-- A piece of free-form data. -/
inductive Value where
  /-- Nothing. -/
  | null
  /-- A truth value. -/
  | bool (b : Bool)
  /-- An integer. -/
  | int (n : Int)
  /-- A number written with a point or an exponent. -/
  | real (x : Double)
  /-- A text. -/
  | text (s : String)
  /-- A list of values. -/
  | list (items : List Value)
  /-- Named values. -/
  | object (fields : List (String × Value))
deriving Inhabited, Repr

namespace Value

mutual

/-- Whether two values are the same, looked at part by part. -/
def same : Value → Value → Bool
  | null, null => true
  | bool a, bool b => a == b
  | int a, int b => a == b
  | real a, real b => a == b
  | text a, text b => a == b
  | list a, list b => sameItems a b
  | object a, object b => sameFields a b
  | _, _ => false

/-- `same` for lists, item by item. -/
def sameItems : List Value → List Value → Bool
  | [], [] => true
  | a :: as, b :: bs => same a b && sameItems as bs
  | _, _ => false

/-- `same` for the fields of objects, name by name. -/
def sameFields : List (String × Value) → List (String × Value) → Bool
  | [], [] => true
  | (k, a) :: as, (l, b) :: bs => k == l && same a b && sameFields as bs
  | _, _ => false

end

mutual

theorem eq_of_same : ∀ {a b : Value}, same a b = true → a = b
  | null, b, h => by cases b <;> simp_all [same]
  | bool x, b, h => by cases b <;> simp_all [same]
  | int x, b, h => by cases b <;> simp_all [same]
  | real x, b, h => by cases b <;> simp_all [same]
  | text x, b, h => by cases b <;> simp_all [same]
  | list xs, b, h => by
    cases b <;> simp only [same, Bool.false_eq_true] at h
    rw [eq_of_sameItems h]
  | object xs, b, h => by
    cases b <;> simp only [same, Bool.false_eq_true] at h
    rw [eq_of_sameFields h]

theorem eq_of_sameItems : ∀ {as bs : List Value}, sameItems as bs = true → as = bs
  | [], bs, h => by cases bs <;> simp_all [sameItems]
  | a :: as, [], h => by simp [sameItems] at h
  | a :: as, b :: bs, h => by
    simp only [sameItems, Bool.and_eq_true] at h
    rw [eq_of_same h.1, eq_of_sameItems h.2]

theorem eq_of_sameFields : ∀ {as bs : List (String × Value)}, sameFields as bs = true → as = bs
  | [], bs, h => by cases bs <;> simp_all [sameFields]
  | a :: as, [], h => by simp [sameFields] at h
  | (k, a) :: as, (l, b) :: bs, h => by
    simp only [sameFields, Bool.and_eq_true, beq_iff_eq] at h
    rw [h.1.1, eq_of_same h.1.2, eq_of_sameFields h.2]

end

mutual

theorem same_self : ∀ a : Value, same a a = true
  | null => rfl
  | bool _ => by simp [same]
  | int _ => by simp [same]
  | real _ => by simp [same]
  | text _ => by simp [same]
  | list xs => by simp only [same]; exact sameItems_self xs
  | object xs => by simp only [same]; exact sameFields_self xs

theorem sameItems_self : ∀ as : List Value, sameItems as as = true
  | [] => rfl
  | a :: as => by simp [sameItems, same_self a, sameItems_self as]

theorem sameFields_self : ∀ as : List (String × Value), sameFields as as = true
  | [] => rfl
  | (k, a) :: as => by simp [sameFields, same_self a, sameFields_self as]

end

instance : DecidableEq Value := fun a b =>
  if h : same a b = true then isTrue (eq_of_same h)
  else isFalse fun e => h (e ▸ same_self a)

/-- Puts a field among fields that stand in the order of their names; a field of that name
is replaced. -/
def putField (name : String) (v : Value) : List (String × Value) → List (String × Value)
  | [] => [(name, v)]
  | (k, w) :: rest =>
    if name < k then (name, v) :: (k, w) :: rest
    else if name = k then (name, v) :: rest
    else (k, w) :: putField name v rest

/-- The object with the given fields; of two fields with one name the later counts. -/
def ofFields (fields : List (String × Value)) : Value :=
  object (fields.foldl (fun kept f => putField f.1 f.2 kept) [])

/-- The field of an object. -/
def field? : Value → String → Option Value
  | object fields, name => fields.lookup name
  | _, _ => none

end Value

end BeanContainer
