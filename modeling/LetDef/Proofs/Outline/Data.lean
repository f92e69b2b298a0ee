import LetDef.Syntax.Outline
import LetDef.Proofs.Number.Text

/-!
# The data in the lines of an outline

The line of a node has its kind and its data. From what stands there the data can be told, because
names and texts are quoted and the form of any other value has no comma.
-/

namespace LetDef

open Text (SelfDelimiting append_cons_inj selfDelimiting_quote toList_quote quoteFor_eq quote)

variable {r s : List Char}

/-! ### Values -/

namespace Value

/-- The kinds of value. -/
inductive Kind where
  | nil | boolean | text | integer | decimal

/-- The kind of a value. -/
def kind : Value → Kind
  | nil => .nil
  | boolean _ => .boolean
  | text _ => .text
  | integer _ => .integer
  | decimal _ => .decimal

/-- The kind of value whose form begins with the character. -/
def kindOf (c : Char) : Kind :=
  if c = 'N' then .nil
  else if c = 'T' ∨ c = 'F' then .boolean
  else if c = '\'' ∨ c = '"' then .text
  else if c = 'D' then .decimal
  else .integer

lemma kindOf_digit {c : Char} (h : Token.isDigit c = true) : kindOf c = .integer := by
  have hne (d : Char) (hd : Token.isDigit d = false) : c ≠ d := by
    rintro rfl
    rw [h] at hd
    cases hd
  simp [kindOf, hne 'N' rfl, hne 'T' rfl, hne 'F' rfl, hne '\'' rfl, hne '"' rfl, hne 'D' rfl]

lemma toList_quoted_integer (n : Int) : (integer n).quoted.toList =
    Number.signText (n < 0) ++ Number.digits n.natAbs := by
  rw [quoted, Number.integerText_eq, String.toList_ofList]

lemma toList_quoted_decimal (d : Decimal) :
    (decimal d).quoted.toList = "Decimal('".toList ++ (d.text.toList ++ "')".toList) := by
  rw [quoted, String.toList_append, String.toList_append, List.append_assoc]

/-- The first character of its form tells the kind of a value. -/
lemma quoted_eq_cons (v : Value) : ∃ c cs, v.quoted.toList = c :: cs ∧ kindOf c = v.kind := by
  cases v with
  | nil => exact ⟨_, _, rfl, rfl⟩
  | boolean b => cases b <;> exact ⟨_, _, rfl, rfl⟩
  | text s =>
    refine ⟨_, _, toList_quote s, ?_⟩
    rcases quoteFor_eq s.toList with hq | hq <;> rw [hq] <;> rfl
  | integer n =>
    obtain ⟨x, xs, hdigits, hx⟩ := (Number.wholePart_digits n.natAbs).eq_cons
    rw [toList_quoted_integer, hdigits]
    by_cases hn : n < 0
    · rw [decide_eq_true hn]
      exact ⟨_, _, rfl, rfl⟩
    · rw [decide_eq_false hn]
      exact ⟨x, xs, rfl, kindOf_digit hx⟩
  | decimal d => exact ⟨_, _, toList_quoted_decimal d, rfl⟩

lemma mem_quoted_integer {n : Int} {c : Char} (h : c ∈ (integer n).quoted.toList) :
    Token.isDigit c = true ∨ c = '-' := by
  rw [toList_quoted_integer, List.mem_append] at h
  rcases h with hsign | h
  · unfold Number.signText at hsign
    split at hsign
    · exact .inr (List.mem_singleton.1 hsign)
    · cases hsign
  · exact .inl ((Number.wholePart_digits _).digits c h)

lemma mem_quoted_decimal {d : Decimal} {c : Char} (h : c ∈ (decimal d).quoted.toList) :
    Token.isDigit c = true ∨ c ∈ "Decimal('-+.E')".toList := by
  rw [toList_quoted_decimal, List.mem_append, List.mem_append] at h
  rcases h with h | h | h
  · exact .inr (List.mem_of_mem_take (i := 9) h)
  · refine (Decimal.mem_text h).imp_right fun h => ?_
    exact List.mem_of_mem_drop (i := 9) (List.mem_of_mem_take (i := 4) h)
  · exact .inr (List.mem_of_mem_drop (i := 13) h)

/-- The form of a value that is no text has no comma and stays on the line. -/
lemma separator_notMem_quoted {v : Value} (hv : v.kind ≠ .text) {c : Char}
    (hc : c = ',' ∨ c = '\n') : c ∉ v.quoted.toList := by
  intro hmem
  cases v with
  | nil => rcases hc with rfl | rfl <;> revert hmem <;> decide
  | boolean b => rcases hc with rfl | rfl <;> cases b <;> revert hmem <;> decide
  | text s => exact hv rfl
  | integer n =>
    have hnot := mem_quoted_integer hmem
    rcases hc with rfl | rfl <;> revert hnot <;> decide
  | decimal d =>
    have hnot := mem_quoted_decimal hmem
    rcases hc with rfl | rfl <;> revert hnot <;> decide

/-- A truth value tells where it ends. -/
lemma selfDelimiting_boolean : SelfDelimiting fun b => (boolean b).quoted.toList := by
  intro b b' r s h
  cases b <;> cases b'
  · exact ⟨rfl, List.append_cancel_left h⟩
  · cases (List.cons.inj h).1
  · cases (List.cons.inj h).1
  · exact ⟨rfl, List.append_cancel_left h⟩

/-- Before a comma, the form of a value tells the value. -/
lemma quoted_append_comma_inj {v w : Value}
    (h : v.quoted.toList ++ ',' :: r = w.quoted.toList ++ ',' :: s) : v = w ∧ r = s := by
  have hkind : v.kind = w.kind := by
    obtain ⟨c, cs, hv, hc⟩ := v.quoted_eq_cons
    obtain ⟨d, ds, hw, hd⟩ := w.quoted_eq_cons
    rw [hv, hw] at h
    rw [← hc, ← hd, (List.cons.inj h).1]
  by_cases htext : v.kind = .text
  · cases v <;> cases htext
    cases w <;> cases hkind
    obtain ⟨rfl, hr⟩ := selfDelimiting_quote h
    exact ⟨rfl, (List.cons.inj hr).2⟩
  · obtain ⟨hquoted, hr⟩ := append_cons_inj (separator_notMem_quoted htext (.inl rfl))
      (separator_notMem_quoted (hkind ▸ htext) (.inl rfl)) h
    refine ⟨?_, hr⟩
    cases v with
    | nil => cases w <;> cases hkind; rfl
    | boolean b =>
      cases w <;> cases hkind
      rw [selfDelimiting_boolean.injective hquoted]
    | text s => exact absurd rfl htext
    | integer n =>
      cases w <;> cases hkind
      rw [Number.integerText_injective (String.toList_inj.1 hquoted)]
    | decimal d =>
      cases w <;> cases hkind
      rw [toList_quoted_decimal, toList_quoted_decimal] at hquoted
      have htexts := List.append_cancel_right (List.append_cancel_left hquoted)
      rw [Decimal.text_injective (String.toList_inj.1 htexts)]

end Value

/-! ### Names -/

/-- An optional name tells where it ends. -/
lemma selfDelimiting_quotedName : SelfDelimiting fun o => (quotedName? o).toList := by
  have hne (s : String) (r u : List Char) : "None".toList ++ r ≠ (quote s).toList ++ u := by
    rw [toList_quote]
    intro h
    have hfirst : 'N' = Text.quoteFor s.toList := (List.cons.inj h).1
    rcases quoteFor_eq s.toList with hq | hq <;> rw [hq] at hfirst <;> cases hfirst
  intro o o' r u h
  cases o with
  | none =>
    cases o' with
    | none => exact ⟨rfl, List.append_cancel_left h⟩
    | some s => exact absurd h (hne s r u)
  | some s =>
    cases o' with
    | none => exact absurd h.symm (hne s u r)
    | some t =>
      obtain ⟨rfl, hr⟩ := selfDelimiting_quote h
      exact ⟨rfl, hr⟩

/-! ### Lists -/

/-- The items, each behind a comma. -/
def listed (items : List String) : List Char :=
  items.flatMap fun item => ',' :: ' ' :: item.toList

/-- The items with commas between them. -/
def joined (items : List String) : List Char :=
  (", ".intercalate items).toList

lemma joined_cons (item : String) (items : List String) :
    joined (item :: items) = item.toList ++ listed items := by
  unfold joined
  induction items generalizing item with
  | nil => rw [String.intercalate_singleton, listed, List.flatMap_nil, List.append_nil]
  | cons next items ih =>
    rw [String.intercalate_cons_cons, String.toList_append, String.toList_append, ih,
      List.append_assoc]
    rfl

lemma joined_snoc_inj {items : List String} {item item' : String}
    (h : joined (items ++ [item]) = joined (items ++ [item'])) : item = item' := by
  cases items with
  | nil =>
    rw [List.nil_append, List.nil_append, joined_cons, joined_cons] at h
    exact String.toList_inj.1 (List.append_cancel_right h)
  | cons first items =>
    rw [List.cons_append, List.cons_append, joined_cons, joined_cons, listed, listed,
      List.flatMap_append, List.flatMap_append] at h
    have h := List.append_cancel_left (List.append_cancel_left h)
    simp only [List.flatMap_cons, List.flatMap_nil, List.append_nil, List.cons.injEq,
      true_and] at h
    exact String.toList_inj.1 h

/-- An item tells where it ends, and so do items behind commas. -/
lemma listed_cons_inj {α : Type} {write : α → String}
    (hwrite : SelfDelimiting fun a => (write a).toList) {label : String} {a a' : α}
    {items items' : List String}
    (h : listed ((label ++ write a) :: items) = listed ((label ++ write a') :: items')) :
    a = a' ∧ listed items = listed items' := by
  simp only [listed, List.flatMap_cons, String.toList_append, List.cons_append, List.append_assoc,
    List.cons.injEq, true_and] at h
  exact hwrite (List.append_cancel_left h)

lemma joined_cons_inj {α : Type} {write : α → String}
    (hwrite : SelfDelimiting fun a => (write a).toList) {label : String} {a a' : α}
    {items items' : List String}
    (h : joined ((label ++ write a) :: items) = joined ((label ++ write a') :: items')) :
    a = a' ∧ listed items = listed items' := by
  rw [joined_cons, joined_cons, String.toList_append, String.toList_append, List.append_assoc,
    List.append_assoc] at h
  exact hwrite (List.append_cancel_left h)

/-- Quoted names behind commas end at the bracket. -/
lemma listed_quote_inj {names names' : List String}
    (h : listed (names.map quote) ++ ')' :: r = listed (names'.map quote) ++ ')' :: s) :
    names = names' ∧ r = s := by
  induction names generalizing names' with
  | nil =>
    cases names' with
    | nil => exact ⟨rfl, (List.cons.inj h).2⟩
    | cons name' names' => cases (List.cons.inj h).1
  | cons name names ih =>
    cases names' with
    | nil => cases (List.cons.inj h).1
    | cons name' names' =>
      simp only [listed, List.map_cons, List.flatMap_cons, List.cons_append, List.append_assoc,
        List.cons.injEq, true_and] at h
      obtain ⟨rfl, hrest⟩ := selfDelimiting_quote h
      obtain ⟨rfl, hr⟩ := ih hrest
      exact ⟨rfl, hr⟩

/-- What stands behind the first item of a tuple. -/
def tupleRest : List String → List Char
  | [] => [',', ')']
  | items => listed items ++ [')']

lemma toList_tupleText_cons (item : String) (items : List String) :
    (tupleText (item :: items)).toList = '(' :: (item.toList ++ tupleRest items) := by
  cases items with
  | nil =>
    rw [tupleText, String.toList_append, String.toList_append, List.append_assoc]
    rfl
  | cons next items =>
    have hjoined : (", ".intercalate (item :: next :: items)).toList
        = item.toList ++ listed (next :: items) := joined_cons item (next :: items)
    change ("(" ++ ", ".intercalate (item :: next :: items) ++ ")").toList = _
    rw [String.toList_append, String.toList_append, hjoined, List.append_assoc, List.append_assoc]
    rfl

lemma tupleRest_append_inj {names names' : List String}
    (h : tupleRest (names.map quote) ++ r = tupleRest (names'.map quote) ++ s) :
    names = names' ∧ r = s := by
  cases names with
  | nil =>
    cases names' with
    | nil => exact ⟨rfl, List.append_cancel_left h⟩
    | cons name' names' => cases (List.cons.inj (List.cons.inj h).2).1
  | cons name names =>
    cases names' with
    | nil => cases (List.cons.inj (List.cons.inj h).2).1
    | cons name' names' =>
      rw [List.map_cons, List.map_cons, tupleRest, tupleRest, List.append_assoc,
        List.append_assoc] at h
      · exact listed_quote_inj h
      all_goals exact List.cons_ne_nil _ _

/-- A tuple of names tells where it ends. -/
lemma tupleText_append_inj {names names' : List String} (hn : names ≠ []) (hn' : names' ≠ [])
    (h : (tupleText (names.map quote)).toList ++ r = (tupleText (names'.map quote)).toList ++ s) :
    names = names' ∧ r = s := by
  obtain ⟨name, names, rfl⟩ := List.exists_cons_of_ne_nil hn
  obtain ⟨name', names', rfl⟩ := List.exists_cons_of_ne_nil hn'
  rw [List.map_cons, List.map_cons, toList_tupleText_cons, toList_tupleText_cons,
    List.cons_append, List.cons_append, List.append_assoc, List.append_assoc] at h
  obtain ⟨rfl, hrest⟩ := selfDelimiting_quote (List.cons.inj h).2
  obtain ⟨rfl, hr⟩ := tupleRest_append_inj hrest
  exact ⟨rfl, hr⟩

/-- A label is not the beginning of items that begin with another one. -/
lemma not_label_prefix {label label' text : String} {items : List String}
    (hne : ¬ label.toList <+: label'.toList) (hne' : ¬ label'.toList <+: label.toList) :
    ¬ listed [label] <+: listed ((label' ++ text) :: items) := by
  intro h
  simp only [listed, List.flatMap_cons, List.flatMap_nil, List.append_nil, String.toList_append,
    List.cons_append, List.append_assoc, List.cons_prefix_cons, true_and] at h
  exact (List.prefix_or_prefix_of_prefix h (List.prefix_append _ _)).elim hne hne'

/-- Names that are data of a node can be told from what stands behind them, if that does not begin
like the names. -/
lemma nameData_append_inj {label : String} {names names' items items' : List String}
    (hi : ¬ listed [label ++ "="] <+: listed items)
    (hi' : ¬ listed [label ++ "="] <+: listed items')
    (h : listed (Node.nameData label names ++ items) =
      listed (Node.nameData label names' ++ items')) :
    names = names' ∧ listed items = listed items' := by
  have hsome (name : String) (names items : List String) :
      listed (Node.nameData label (name :: names) ++ items) = listed [label ++ "="] ++
        ((tupleText ((name :: names).map quote)).toList ++ listed items) := by
    change listed ([label ++ "=" ++ _] ++ items) = _
    simp only [listed, List.cons_append, List.nil_append, List.flatMap_cons, List.flatMap_nil,
      List.append_nil, String.toList_append, List.append_assoc]
  cases names with
  | nil =>
    cases names' with
    | nil => exact ⟨rfl, h⟩
    | cons name' names' =>
      rw [hsome] at h
      exact absurd (h ▸ List.prefix_append _ _) hi
  | cons name names =>
    cases names' with
    | nil =>
      rw [hsome] at h
      exact absurd (h ▸ List.prefix_append _ _) hi'
    | cons name' names' =>
      rw [hsome, hsome] at h
      exact tupleText_append_inj (List.cons_ne_nil _ _) (List.cons_ne_nil _ _)
        (List.append_cancel_left h)

/-! ### The line of a node -/

namespace Node

/-- All kinds of node. -/
def Kind.all : List Kind :=
  [.literal, .group, .binary, .access, .call, .perform, .declare, .assign, .branch, .forLoop,
   .whileLoop, .giveBack, .field, .method, .program]

/-- A kind is found by its name. -/
lemma Kind.find?_name (k : Kind) : Kind.all.find? (·.name == k.name) = some k := by
  cases k <;> decide

lemma Kind.name_injective : Function.Injective Kind.name := by
  intro k k' h
  have hfound := Kind.find?_name k
  rw [h, Kind.find?_name] at hfound
  exact (Option.some.inj hfound).symm

lemma Kind.mem_name (k : Kind) : '(' ∉ k.name.toList ∧ '\n' ∉ k.name.toList ∧
    k.name.toList.head? ≠ some ' ' := by
  cases k <;> decide

/-- The line of a node without its indentation. -/
def headText (kind : Kind) (data : List String) : List Char :=
  kind.name.toList ++ '(' :: (joined data ++ [')'])

lemma toList_headLine (depth : Nat) (kind : Kind) (data : List String) :
    (headLine depth kind data).toList = List.replicate (2 * depth) ' ' ++ headText kind data := by
  simp only [headLine, indent, headText, joined, String.toList_append, String.toList_ofList,
    List.append_assoc]
  rfl

/-- The line of a node tells its kind and its data. -/
lemma headLine_inj {depth : Nat} {kind kind' : Kind} {data data' : List String}
    (h : headLine depth kind data = headLine depth kind' data') :
    kind = kind' ∧ joined data = joined data' := by
  have h := congrArg String.toList h
  rw [toList_headLine, toList_headLine] at h
  obtain ⟨hname, hdata⟩ := append_cons_inj (Kind.mem_name kind).1 (Kind.mem_name kind').1
    (List.append_cancel_left h)
  exact ⟨Kind.name_injective (String.toList_inj.1 hname), List.append_cancel_right hdata⟩

end Node

end LetDef
