import Mathlib.Data.List.Basic
import ReadThrough.Proofs.Sql.Meaning
import ReadThrough.Proofs.Sql.Select
/-!
# Statements that are read

A database reads the text of a statement word by word, and puts for each placeholder the value with its
number (`Query.read`). If the names of a mapping are plain, then what it reads in the statement of a query
for keys, or of a count, is what the query says (`read_statement`, `read_countStatement`).
-/

namespace ReadThrough.Sql

/-! ## Words -/

/-- The words of a text, which stand between blanks. -/
def wordsOf (text : String) : List String := (text.toList.splitOn ' ').map String.ofList

/-- Whether a text is a name that needs no quotes: small letters, digits and low lines, no digit first. -/
def plainName (s : String) : Bool :=
  match s.toList with
  | [] => false
  | c :: cs => !c.isDigit && (c :: cs).all fun c => c.isLower || c.isDigit || c = '_'

/-- The column of the row at hand that a word names. -/
def column? (word : String) : Option String :=
  match word.toList with
  | 't' :: '.' :: name => if plainName (.ofList name) then some (.ofList name) else none
  | _ => none

/-- The value that a placeholder stands for. -/
def value? (binds : List Bind) (word : String) : Option Value :=
  match word.toList with
  | '$' :: digits =>
    if digits.all Char.isDigit then
      match Nat.ofDigitChars 10 digits 0 with
      | 0 => none
      | n + 1 => match binds[n]? with
        | some (.value v) => some v
        | _ => none
    else none
  | _ => none

/-- The comparison that a word stands for. -/
def comparison? : String → Option Comparison
  | "=" => some .eq
  | ">" => some .gt
  | _ => none

/-- The direction that a word stands for, and whether a comma follows. -/
def direction? : String → Option (Direction × Bool)
  | "ASC" => some (.asc, false)
  | "DESC" => some (.desc, false)
  | "ASC," => some (.asc, true)
  | "DESC," => some (.desc, true)
  | _ => none

/-! ## Reading word by word

Each reader takes its words off the front and returns the others with what it has read. -/

/-- The table that a query is about, before its conditions. -/
def table? : List String → Option (String × List String)
  | "FROM" :: table :: "t" :: "WHERE" :: "1" :: "=" :: "1" :: rest =>
    if plainName table then some (table, rest) else none
  | _ => none

/-- The conditions that follow. -/
def conditions? (binds : List Bind) : List String → Option (Filter × List String)
  | "AND" :: column :: comparison :: mark :: rest => do
    let column ← column? column
    let comparison ← comparison? comparison
    let value ← value? binds mark
    let (f, rest) ← conditions? binds rest
    return ({ column, comparison, value } :: f, rest)
  | rest => some ([], rest)

/-- The columns that rows are ordered by. -/
def columns? : List String → Option (List Order × List String)
  | column :: direction :: rest => do
    let column ← column? column
    let (direction, more) ← direction? direction
    if more then
      let (order, rest) ← columns? rest
      return ({ column, direction } :: order, rest)
    else return ([{ column, direction }], rest)
  | _ => none

/-- The order that follows, if there is one. -/
def order? : List String → Option (List Order × List String)
  | "ORDER" :: "BY" :: rest => columns? rest
  | rest => some ([], rest)

/-- The number that follows a word, if the word does. It must not be below zero. -/
def bound? (binds : List Bind) (word : String) : List String → Option (Option Nat × List String)
  | w :: mark :: rest =>
    if w = word then
      match value? binds mark with
      | some (.int n) => if 0 ≤ n then some (some n.toNatClampNeg, rest) else none
      | _ => none
    else some (none, w :: mark :: rest)
  | rest => some (none, rest)

/-- The query that words make, if they do. -/
def query? (binds : List Bind) : List String → Option Query
  | "SELECT" :: "COUNT(*)" :: rest => do
    let (table, rest) ← table? rest
    let (conditions, rest) ← conditions? binds rest
    if rest = [] then some (.count table conditions) else none
  | "SELECT" :: column :: "AS" :: "key" :: rest => do
    let column ← column? column
    let (table, rest) ← table? rest
    let (conditions, rest) ← conditions? binds rest
    let (order, rest) ← order? rest
    let (limit, rest) ← bound? binds "LIMIT" rest
    let (offset, rest) ← bound? binds "OFFSET" rest
    if rest = [] then some (.list { column, table, conditions, order, limit, offset := offset.getD 0 })
    else none
  | _ => none

/-- What a database reads in a statement. -/
def Query.read (s : Statement) : Option Query := query? s.binds (wordsOf s.text)

/-! ## The words of a statement -/

/-- Words, each with a blank before it. -/
def spaced (words : List String) : List Char := words.flatMap fun w => ' ' :: w.toList

theorem wordsOf_eq {text word : String} {words : List String} (h : text.toList = word.toList ++ spaced words)
    (hblank : ∀ w ∈ word :: words, ' ' ∉ w.toList) : wordsOf text = word :: words := by
  have hintercalate : ∀ (words : List String) (word : String),
      word.toList ++ spaced words = [' '].intercalate ((word :: words).map String.toList) := by
    intro words
    induction words with
    | nil => simp [spaced]
    | cons w words ih =>
      intro word
      have hrest := ih w
      simp [spaced, List.intercalate_cons_cons] at hrest ⊢
      exact hrest
  rw [wordsOf, h, hintercalate, List.splitOn_intercalate ' ' ?_ (by simp)]
  · simp
  · intro l hl
    obtain ⟨w, hw, rfl⟩ := List.mem_map.1 hl
    exact hblank w hw

/-- The placeholder with a number. -/
def mark (n : Nat) : String := "$" ++ toString n

/-- The words of conditions whose placeholders are numbered from `n` on. -/
def conditionWords (n : Nat) : Filter → List String
  | [] => []
  | c :: f => "AND" :: ("t." ++ c.column) :: c.comparison.sql :: mark n :: conditionWords (n + 1) f

/-- The words of the columns that rows are ordered by. -/
def columnWords : List Order → List String
  | [] => []
  | [o] => ["t." ++ o.column, o.direction.sql]
  | o :: o' :: order => ("t." ++ o.column) :: (o.direction.sql ++ ",") :: columnWords (o' :: order)

/-- The words of a bound on the number of rows. -/
def boundWords (word : String) (n : Nat) (bound : Option Int64) : List String :=
  if bound.isSome then [word, mark n] else []

theorem toList_conditionPieces (n : Nat) (f : Filter) :
    (Statement.textFrom n (conditionPieces f)).toList = spaced (conditionWords n f) := by
  induction f generalizing n with
  | nil => rfl
  | cons c f ih =>
    have hcons : conditionPieces (c :: f) =
        .text s!" AND t.{c.column} {c.comparison.sql} " :: .bind (.value c.value) :: conditionPieces f := rfl
    simp only [hcons, Statement.textFrom, String.toList_append, ih]
    simp [conditionWords, spaced, mark, toString]

theorem orderText_cons_cons (o o' : Order) (order : List Order) :
    orderText (o :: o' :: order) =
      "t." ++ o.column ++ " " ++ (o.direction.sql ++ ",") ++ (" " ++ orderText (o' :: order)) := by
  simp [orderText, String.intercalate_cons_cons, toString, String.append_assoc, ← String.toList_inj]

theorem toList_orderText (o : Order) (order : List Order) :
    (" " ++ orderText (o :: order)).toList = spaced (columnWords (o :: order)) := by
  induction order generalizing o with
  | nil => simp [orderText, columnWords, spaced, toString]
  | cons o' order ih =>
    rw [orderText_cons_cons, ← String.append_assoc, String.toList_append, ih]
    simp [columnWords, spaced]

theorem toList_orderBy {order : List Order} (h : order ≠ []) :
    (" ORDER BY " ++ orderText order).toList = spaced ("ORDER" :: "BY" :: columnWords order) := by
  obtain ⟨o, order, rfl⟩ := List.exists_cons_of_ne_nil h
  have hcolumns := toList_orderText o order
  simp [spaced] at hcolumns ⊢
  exact hcolumns

theorem toList_countPieces (word : String) (n : Nat) (bound : Option Int64) :
    (Statement.textFrom n (countPieces word bound)).toList = spaced (boundWords word n bound) := by
  cases bound <;> simp [countPieces, Statement.textFrom, boundWords, spaced, mark, toString]

/-! ## Words are read -/

theorem column?_eq {c : String} (h : plainName c = true) : column? ("t." ++ c) = some c := by
  have hword : ("t." ++ c).toList = 't' :: '.' :: c.toList := by simp
  rw [column?, hword]
  simp only [String.ofList_toList, h, if_true]

theorem comparison?_sql (c : Comparison) : comparison? c.sql = some c := by
  cases c <;> rfl

theorem direction?_sql (d : Direction) : direction? d.sql = some (d, false) := by
  cases d <;> rfl

theorem direction?_comma (d : Direction) : direction? (d.sql ++ ",") = some (d, true) := by
  cases d <;> rfl

theorem value?_mark {binds : List Bind} {n : Nat} {v : Value} (h : binds[n]? = some (.value v)) :
    value? binds (mark (n + 1)) = some v := by
  have hword : (mark (n + 1)).toList = '$' :: Nat.toDigits 10 (n + 1) := by
    simp [mark]
  have hdigits : (Nat.toDigits 10 (n + 1)).all Char.isDigit = true :=
    List.all_eq_true.2 fun c hc => Nat.isDigit_of_mem_toDigits (by decide) (by decide) hc
  rw [value?, hword]
  simp only [hdigits, if_true, Nat.ofDigitChars_ten_toDigits, h]

/-- The values of conditions are found by the numbers of their placeholders. -/
theorem conditions?_words {binds : List Bind} {f : Filter} (hf : ∀ c ∈ f, plainName c.column = true)
    {n : Nat} {later : List Bind} (hbinds : binds.drop n = f.map (fun c => .value c.value) ++ later)
    {rest : List String} (hrest : ∀ w ∈ rest.head?, w ≠ "AND") :
    conditions? binds (conditionWords (n + 1) f ++ rest) = some (f, rest) := by
  induction f generalizing n with
  | nil =>
    rw [conditionWords, List.nil_append]
    unfold conditions?
    split
    · exact absurd rfl (hrest "AND" rfl)
    · rfl
  | cons c f ih =>
    have hvalue : binds[n]? = some (.value c.value) := by
      have hhead := congrArg List.head? hbinds
      rwa [List.head?_drop] at hhead
    have hlater : binds.drop (n + 1) = f.map (fun c => .value c.value) ++ later := by
      rw [← List.tail_drop, hbinds]
      rfl
    rw [conditionWords, List.cons_append, List.cons_append, List.cons_append, List.cons_append, conditions?,
      column?_eq (hf c List.mem_cons_self), comparison?_sql, value?_mark hvalue,
      ih (fun c' hc' => hf c' (List.mem_cons_of_mem _ hc')) hlater]
    rfl

theorem columns?_words {o : Order} {order : List Order}
    (horder : ∀ x ∈ o :: order, plainName x.column = true) (rest : List String) :
    columns? (columnWords (o :: order) ++ rest) = some (o :: order, rest) := by
  induction order generalizing o with
  | nil =>
    rw [columnWords, List.cons_append, List.cons_append, columns?, column?_eq (horder o List.mem_cons_self),
      direction?_sql]
    rfl
  | cons o' order ih =>
    rw [columnWords, List.cons_append, List.cons_append, columns?, column?_eq (horder o List.mem_cons_self),
      direction?_comma]
    simp only [Option.bind_eq_bind, Option.bind_some, if_true,
      ih fun x hx => horder x (List.mem_cons_of_mem _ hx)]
    rfl

theorem bound?_words {binds : List Bind} {word : String} {n : Nat} {bound : Option Int64}
    (hbound : ∀ k ∈ bound, binds[n]? = some (.value (.int k)) ∧ 0 ≤ k) {rest : List String}
    (hrest : ∀ w ∈ rest.head?, w ≠ word) :
    bound? binds word (boundWords word (n + 1) bound ++ rest) = some (bound.map Int64.toNatClampNeg, rest) := by
  cases bound with
  | some k =>
    obtain ⟨hbind, hk⟩ := hbound k rfl
    simp [boundWords, bound?, value?_mark hbind, hk]
  | none =>
    show bound? binds word rest = _
    unfold bound?
    split
    · rename_i w mark rest
      rw [if_neg (hrest w rfl)]
      rfl
    · rfl

/-! ## Statements are read -/

/-- The names of a mapping need no quotes. -/
structure Mapping.Plain {ρ : Type} (m : Mapping ρ) : Prop where
  table : plainName m.table = true
  columns : ∀ c, m.entity.hasColumn c = true → plainName c = true

theorem blank_notMem_of_plainName {s : String} (h : plainName s = true) : ' ' ∉ s.toList := by
  unfold plainName at h
  split at h
  · cases h
  · rename_i c cs hs
    intro hblank
    rw [hs] at hblank
    have hall := (Bool.and_eq_true_iff.1 h).2
    exact absurd (List.all_eq_true.1 hall ' ' hblank) (by decide)

theorem blank_notMem_column {c : String} (h : plainName c = true) : ' ' ∉ ("t." ++ c).toList := by
  simpa using blank_notMem_of_plainName h

theorem blank_notMem_mark (n : Nat) : ' ' ∉ (mark n).toList := by
  intro h
  have hdigit : ' ' ∈ Nat.toDigits 10 n := by simpa [mark] using h
  exact absurd (Nat.isDigit_of_mem_toDigits (by decide) (by decide) hdigit) (by decide)

theorem blank_notMem_conditionWords {f : Filter} (hf : ∀ c ∈ f, plainName c.column = true) (n : Nat) :
    ∀ w ∈ conditionWords n f, ' ' ∉ w.toList := by
  induction f generalizing n with
  | nil => nofun
  | cons c f ih =>
    have hcomparison : ' ' ∉ c.comparison.sql.toList := by cases c.comparison <;> decide
    have hcolumn := blank_notMem_column (hf c List.mem_cons_self)
    have hrest := ih (fun c' hc' => hf c' (List.mem_cons_of_mem _ hc')) (n + 1)
    simp only [conditionWords, List.forall_mem_cons]
    exact ⟨by decide, hcolumn, hcomparison, blank_notMem_mark n, hrest⟩

theorem blank_notMem_columnWords {order : List Order} (horder : ∀ x ∈ order, plainName x.column = true) :
    ∀ w ∈ columnWords order, ' ' ∉ w.toList := by
  induction order with
  | nil => nofun
  | cons o order ih =>
    have hcolumn := blank_notMem_column (horder o List.mem_cons_self)
    cases order with
    | nil =>
      have hdirection : ' ' ∉ o.direction.sql.toList := by cases o.direction <;> decide
      simp only [columnWords, List.forall_mem_cons]
      exact ⟨hcolumn, hdirection, nofun⟩
    | cons o' order =>
      have hdirection : ' ' ∉ (o.direction.sql ++ ",").toList := by cases o.direction <;> decide
      simp only [columnWords, List.forall_mem_cons]
      exact ⟨hcolumn, hdirection, ih fun x hx => horder x (List.mem_cons_of_mem _ hx)⟩

theorem blank_notMem_boundWords {word : String} (h : ' ' ∉ word.toList) (n : Nat) (bound : Option Int64) :
    ∀ w ∈ boundWords word n bound, ' ' ∉ w.toList := by
  cases bound with
  | none => nofun
  | some k =>
    show ∀ w ∈ [word, mark n], _
    simp only [List.forall_mem_cons]
    exact ⟨h, blank_notMem_mark n, nofun⟩

/-- The words between what a query asks for and its conditions. -/
def tableWords (table : String) : List String := ["FROM", table, "t", "WHERE", "1", "=", "1"]

theorem table?_words {table : String} (h : plainName table = true) (rest : List String) :
    table? (tableWords table ++ rest) = some (table, rest) := by
  simp [tableWords, table?, h]

theorem blank_notMem_tableWords {table : String} (h : plainName table = true) :
    ∀ w ∈ tableWords table, ' ' ∉ w.toList := by
  simp only [tableWords, List.forall_mem_cons]
  exact ⟨by decide, blank_notMem_of_plainName h, by decide, by decide, by decide, by decide, by decide,
    nofun⟩

section

variable {ρ : Type} {m : Mapping ρ}

theorem toList_fromTable (m : Mapping ρ) (n : Nat) (s : Statement) :
    (Statement.textFrom n (fromTable m :: s)).toList =
      spaced (tableWords m.table) ++ (Statement.textFrom n s).toList := by
  simp [fromTable, Statement.textFrom, spaced, tableWords, toString]

/-- What is read in a statement that counts rows is what it counts. -/
theorem read_countStatement (hm : m.Plain) {f : Filter} (hf : ∀ c ∈ f, m.entity.hasColumn c.column = true) :
    Query.read ([.text "SELECT COUNT(*)", fromTable m] ++ conditionPieces f) = some (.count m.table f) := by
  have hplain : ∀ c ∈ f, plainName c.column = true := fun c hc => hm.columns _ (hf c hc)
  have hwords : wordsOf (Statement.text ([.text "SELECT COUNT(*)", fromTable m] ++ conditionPieces f)) =
      "SELECT" :: "COUNT(*)" :: (tableWords m.table ++ conditionWords 1 f) := by
    refine wordsOf_eq ?_ ?_
    · show (Statement.textFrom 1 (.text "SELECT COUNT(*)" :: fromTable m :: conditionPieces f)).toList = _
      rw [Statement.textFrom, String.toList_append, toList_fromTable, toList_conditionPieces]
      simp [spaced]
    · simp only [List.forall_mem_cons, List.forall_mem_append]
      exact ⟨by decide, by decide, blank_notMem_tableWords hm.table, blank_notMem_conditionWords hplain 1⟩
  have hbinds : (Statement.binds ([.text "SELECT COUNT(*)", fromTable m] ++ conditionPieces f)).drop 0 =
      f.map (fun c => .value c.value) ++ [] := by
    rw [List.drop_zero, Statement.binds_append, binds_conditionPieces, List.append_nil]
    rfl
  have hconditions : conditions? _ (conditionWords 1 f ++ []) = some (f, []) :=
    conditions?_words hplain hbinds (by simp)
  rw [List.append_nil] at hconditions
  rw [Query.read, hwords, query?]
  simp only [table?_words hm.table, hconditions, Option.bind_eq_bind, Option.bind_some, if_true]

/-- The words of a query for keys, after the first. -/
def selectWords (m : Mapping ρ) (q : Select) : List String :=
  let limit := q.conditions.length + 1
  let offset := q.conditions.length + q.limit.toList.length + 1
  ("t." ++ m.entity.keyColumn) :: "AS" :: "key" :: (tableWords m.table ++ (conditionWords 1 q.conditions ++
    ("ORDER" :: "BY" :: (columnWords q.order ++
      (boundWords "LIMIT" limit q.limit ++ boundWords "OFFSET" offset q.offset)))))

theorem wordsOf_statement (hm : m.Plain) {q : Select} (hq : q.Declared m) (hkeys : q.projection = .keys)
    (horder : q.order ≠ []) : wordsOf (q.statement m).text = "SELECT" :: selectWords m q := by
  have hconditions : ∀ c ∈ q.conditions, plainName c.column = true :=
    fun c hc => hm.columns _ (hq.conditions c hc)
  have hcolumns : ∀ x ∈ q.order, plainName x.column = true := fun x hx => hm.columns _ (hq.order x hx)
  refine wordsOf_eq ?_ ?_
  · have hstatement : q.statement m = .text ("SELECT " ++ q.projection.text m) :: fromTable m ::
        (conditionPieces q.conditions ++ (.text (" ORDER BY " ++ orderText q.order) ::
          (countPieces "LIMIT" q.limit ++ countPieces "OFFSET" q.offset))) := by
      simp [Select.statement]
    have hlength : (Statement.binds (conditionPieces q.conditions)).length = q.conditions.length := by
      rw [binds_conditionPieces, List.length_map]
    have hlimit : (Statement.binds (countPieces "LIMIT" q.limit)).length = q.limit.toList.length := by
      rw [binds_countPieces, List.length_map]
    have hcolumns := toList_orderBy horder
    rw [Statement.text, hstatement, Statement.textFrom, String.toList_append, toList_fromTable,
      Statement.textFrom_append, Statement.textFrom, Statement.textFrom_append, hlength, hlimit]
    simp only [String.toList_append] at hcolumns ⊢
    rw [toList_conditionPieces, toList_countPieces, toList_countPieces, hcolumns]
    simp [hkeys, Projection.text, selectWords, spaced, toString, Nat.add_comm 1, Nat.add_right_comm]
  · simp only [selectWords, List.forall_mem_cons, List.forall_mem_append]
    exact ⟨by decide, blank_notMem_column (hm.columns _ m.entity.hasColumn_keyColumn), by decide, by decide,
      blank_notMem_tableWords hm.table, blank_notMem_conditionWords hconditions 1, by decide, by decide,
      blank_notMem_columnWords hcolumns, blank_notMem_boundWords (by decide) _ _,
      blank_notMem_boundWords (by decide) _ _⟩

/-- What is read in the statement of a query for keys is what the query says. -/
theorem read_statement (hm : m.Plain) {q : Select} (hq : q.Declared m) (hkeys : q.projection = .keys)
    (horder : q.order ≠ []) (hlimit : ∀ k ∈ q.limit, 0 ≤ k) (hoffset : ∀ k ∈ q.offset, 0 ≤ k) :
    Query.read (q.statement m) = some (.list
      { column := m.entity.keyColumn
        table := m.table
        conditions := q.conditions
        order := q.order
        limit := q.limit.map Int64.toNatClampNeg
        offset := (q.offset.map Int64.toNatClampNeg).getD 0 }) := by
  obtain ⟨o, order, hcons⟩ := List.exists_cons_of_ne_nil horder
  have hbinds : (q.statement m).binds = q.conditions.map (fun c => .value c.value) ++
      (q.limit.toList.map (fun n => .value (.int n)) ++ q.offset.toList.map fun n => .value (.int n)) := by
    simp [Select.binds_statement, Select.values, Function.comp_def]
  have hlimitBind : ∀ k ∈ q.limit, (q.statement m).binds[q.conditions.length]? = some (.value (.int k)) := by
    intro k hk
    simp [hbinds, Option.mem_def.1 hk]
  have hoffsetBind : ∀ k ∈ q.offset,
      (q.statement m).binds[q.conditions.length + q.limit.toList.length]? = some (.value (.int k)) := by
    intro k hk
    cases hl : q.limit <;> simp [hbinds, Option.mem_def.1 hk, hl]
  rw [Query.read, wordsOf_statement hm hq hkeys horder, selectWords, query?,
    column?_eq (hm.columns _ m.entity.hasColumn_keyColumn)]
  · have hnext : ∀ n, ∀ w ∈ (boundWords "OFFSET" n q.offset).head?, w ≠ "LIMIT" := by
      intro n w hw
      cases hoff : q.offset <;> simp [boundWords, hoff] at hw
      exact hw ▸ by decide
    have hlast : bound? (q.statement m).binds "OFFSET"
        (boundWords "OFFSET" (q.conditions.length + q.limit.toList.length + 1) q.offset) =
        some (q.offset.map Int64.toNatClampNeg, []) := by
      rw [← List.append_nil (boundWords _ _ _)]
      exact bound?_words (fun k hk => ⟨hoffsetBind k hk, hoffset k hk⟩) (by simp)
    simp only [Option.bind_eq_bind, Option.bind_some, table?_words hm.table]
    rw [conditions?_words (fun c hc => hm.columns _ (hq.conditions c hc)) (by rw [List.drop_zero, hbinds])
      (by simp)]
    simp only [Option.bind_some]
    rw [order?, hcons, columns?_words fun x hx => hm.columns _ (hq.order x (hcons ▸ hx))]
    simp only [Option.bind_some]
    rw [bound?_words (fun k hk => ⟨hlimitBind k hk, hlimit k hk⟩) (hnext _)]
    simp only [Option.bind_some, hlast, if_true]
  · intro hcount
    have hhead := congrArg (fun s => s.toList.head?) hcount
    simp at hhead

end

end ReadThrough.Sql
