import ReadThrough.Text.Decimal
/-!
# Setting values

What a source of settings says: a tree of tables and lists with plain values at its leaves. A plain
value is understood generously, so that a text from the environment can stand for a number or a truth
value.
-/

namespace ReadThrough

/-- A value of the settings. -/
inductive Setting where
  | null
  | bool (b : Bool)
  | int (n : Int)
  | real (x : Float)
  | text (s : String)
  | list (items : List Setting)
  | table (members : List (String × Setting))
  deriving Inhabited

/-- Named settings. -/
abbrev SettingTable := List (String × Setting)

/-- What is under a name; nothing is the same as `null`. -/
def SettingTable.get (t : SettingTable) (name : String) : Setting := (t.lookup name).getD .null

/-- A table with a value under a name, in place of the one that was there. -/
def SettingTable.put : SettingTable → String → Setting → SettingTable
  | [], name, v => [(name, v)]
  | (n, old) :: t, name, v => if n = name then (n, v) :: t else (n, old) :: put t name v

theorem SettingTable.get_cons (t : SettingTable) (name name' : String) (v : Setting) :
    SettingTable.get ((name, v) :: t) name' = if name' = name then v else t.get name' := by
  rw [get, List.lookup_cons]
  by_cases h : name' = name
  · simp [h]
  · have hb : (name' == name) = false := by simpa using h
    simp [h, hb, get]

theorem SettingTable.get_put (t : SettingTable) (name name' : String) (v : Setting) :
    (t.put name v).get name' = if name' = name then v else t.get name' := by
  induction t with
  | nil => exact get_cons [] name name' v
  | cons m t ih =>
    obtain ⟨n, old⟩ := m
    unfold put
    by_cases hn : n = name
    · subst hn
      rw [if_pos rfl, get_cons, get_cons]
      split <;> rfl
    · rw [if_neg hn, get_cons, get_cons, ih]
      by_cases h : name' = n
      · simp [h, hn]
      · simp [h]

namespace Setting

/-- The members of a table; any other value has none. -/
def members : Setting → SettingTable
  | .table t => t
  | _ => []

/-- The items of a list; any other value has none. -/
def items : Setting → List Setting
  | .list l => l
  | _ => []

/-! ## Plain values -/

/-- The number that a row of digits denotes. -/
def digits? (cs : List Char) : Option Nat :=
  if cs.isEmpty || !cs.all Char.isDigit then none
  else some (cs.foldl (fun n c => n * 10 + (c.toNat - '0'.toNat)) 0)

/-- The number below a bound that a text denotes: digits, possibly after a plus sign. -/
def natural? (bound : Nat) (s : String) : Option Nat :=
  let cs := match s.toList with
    | '+' :: cs => cs
    | cs => cs
  (digits? cs).filter (· < bound)

/-- The truth value that a word stands for, in letters of any case. -/
def word? (s : String) : Option Bool :=
  let s := s.toLower
  if s = "true" ∨ s = "on" ∨ s = "yes" then some true
  else if s = "false" ∨ s = "off" ∨ s = "no" then some false
  else none

/-- A value as a number of 64 bits. A fraction is rounded, a half away from zero. -/
def toUInt64? : Setting → Option UInt64
  | .bool b => some (if b then 1 else 0)
  | .int n => if 0 ≤ n ∧ n < UInt64.size then some (.ofNat n.toNat) else none
  | .real x => some x.round.toUInt64
  | .text s => match word? s with
    | some b => some (if b then 1 else 0)
    | none => (natural? UInt64.size s).map .ofNat
  | .null | .list _ | .table _ => none

/-- A value as a number of 32 bits. -/
def toUInt32? (v : Setting) : Option UInt32 :=
  v.toUInt64?.bind fun n => if n.toNat < UInt32.size then some n.toUInt32 else none

/-- A value as a truth value; of the numbers only zero is false. -/
def toBool? : Setting → Option Bool
  | .bool b => some b
  | .int n => some (n ≠ 0)
  | .real x => some (x != 0)
  | .text s => if s = "1" then some true else if s = "0" then some false else word? s
  | .null | .list _ | .table _ => none

/-- A value as a text. -/
def toText? : Setting → Option String
  | .bool b => some (if b then "true" else "false")
  | .int n => some (toString n)
  | .real x => some (Decimal.text x)
  | .text s => some s
  | .null | .list _ | .table _ => none

end Setting

end ReadThrough
