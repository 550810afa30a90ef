/-
PascalSurvey/Proofs/Sql/Quoting.lean

What quoting does to the tokens of a statement, and that quoting twice is quoting once.

A step of the walk is cut into what it decides about a token (`quotes`) and what is known
behind it (`Context.after`), of which the second depends on the token and the context alone
(`stepToken_eq`).  Only words that the table has, and none of those that are never quoted,
are quoted (`Quotable`), so by `tokenize_requoted` the tokens of the result are those of the
walk.

For the second walk, contexts are compared (`Context.Alike`).  Every question that a decision
asks about a neighbour is about punctuation or about words that are never quoted, and has the
same answer when other words are put in quotes.  The one exception is whether `ORDER` or
`GROUP` stands before `BY`: these two may be quoted elsewhere, but not there.
-/
import PascalSurvey.Sql.Quoting
import PascalSurvey.Proofs.Sql.Retokenize
import PascalSurvey.Proofs.Text.Fold

namespace PascalSurvey.Sql

open Ascii

/-! ### A step -/

/-- Whether a token is put in quotes. -/
def quotes (table : ReservedWords) (ctx : Context) (token : Token) (next : Option Token) : Bool :=
  token.kind == .word && (clauseAfter? token.text ctx.prev).isNone && table.contains token.text &&
    isIdentifier token ctx.prev next ctx.clause

/-- The clause behind a token. -/
def Context.clauseAfter (ctx : Context) (token : Token) : Clause :=
  if token.isPunct [lparen] then
    if ctx.prev.any Token.isName && ctx.prev2.any (·.isWord "INTO") then .intoColumns
    else ctx.clause
  else if token.isPunct [rparen] then ctx.outer.headD ctx.clause
  else if token.kind = .word then (clauseAfter? token.text ctx.prev).getD ctx.clause
  else ctx.clause

/-- The clauses around it. -/
def Context.outerAfter (ctx : Context) (token : Token) : List Clause :=
  if token.isPunct [lparen] then ctx.clause :: ctx.outer
  else if token.isPunct [rparen] then ctx.outer.tail
  else ctx.outer

/-- What is known behind a token. -/
def Context.after (ctx : Context) (token : Token) : Context :=
  ⟨some token, ctx.prev, ctx.clauseAfter token, ctx.outerAfter token⟩

/-- **A step decides about a token and goes on.** -/
theorem stepToken_eq (table : ReservedWords) (ctx : Context) (token : Token) (next : Option Token) :
    stepToken table ctx token next =
      (if quotes table ctx token next then ⟨.quotedName, quoted token.text⟩ else token,
        ctx.after token) := by
  have hparens : rparen ≠ lparen := by decide
  obtain ⟨kind, text⟩ := token
  cases kind with
  | word =>
    cases hclause : clauseAfter? text ctx.prev with
    | some clause => simp [stepToken, quotes, Context.after, Context.clauseAfter,
        Context.outerAfter, Token.isPunct, hclause]
    | none =>
      simp only [stepToken, quotes, Context.after, Context.clauseAfter, Context.outerAfter,
        Token.isPunct, hclause]
      split <;> simp_all
  | punct =>
    by_cases hopen : text = [lparen]
    · simp [stepToken, quotes, Context.after, Context.clauseAfter, Context.outerAfter,
        Token.isPunct, hopen]
    · by_cases hclose : text = [rparen]
      · cases houter : ctx.outer <;>
          simp [stepToken, quotes, Context.after, Context.clauseAfter, Context.outerAfter,
            Token.isPunct, hclose, houter, hparens]
      · simp [stepToken, quotes, Context.after, Context.clauseAfter, Context.outerAfter,
          Token.isPunct, hopen, hclose]
  | quotedName | literal | parameter | number | space | comment =>
    simp [stepToken, quotes, Context.after, Context.clauseAfter, Context.outerAfter, Token.isPunct]

/-- A word that may be put in quotes. -/
structure Quotable (table : ReservedWords) (word : Text) : Prop where
  reserved : table.contains word = true
  ordinary : Text.memFold word neverQuoted = false

theorem isWordIn_neverQuoted_of_isIdentifier {token : Token} {prev next : Option Token}
    {clause : Clause} (h : isIdentifier token prev next clause = true) :
    token.isWordIn neverQuoted = false := by
  rw [Bool.eq_false_iff]
  intro hnever
  simp [isIdentifier, hnever] at h

theorem stepToken_requoted (table : ReservedWords) (ctx : Context) (token : Token)
    (next : Option Token) :
    Requoted (Quotable table) token (stepToken table ctx token next).1 := by
  rw [stepToken_eq]
  split
  · next h =>
    simp only [quotes, Bool.and_eq_true, beq_iff_eq] at h
    obtain ⟨⟨⟨hword, -⟩, hreserved⟩, hident⟩ := h
    have hnever := isWordIn_neverQuoted_of_isIdentifier hident
    refine .quoted hword ⟨hreserved, ?_⟩
    simpa [Token.isWordIn, hword] using hnever
  · exact .same

/-- **A walk puts words in quotes and leaves all else.** -/
theorem quoteTokensFrom_requoted (table : ReservedWords) (ctx : Context) (tokens : List Token) :
    List.Forall₂ (Requoted (Quotable table)) tokens (quoteTokensFrom table ctx tokens) := by
  induction tokens generalizing ctx with
  | nil => exact .nil
  | cons token rest ih =>
    rw [quoteTokensFrom]
    split
    · exact .cons (stepToken_requoted table ctx token _) (ih _)
    · exact .cons .same (ih ctx)

/-- The tokens of a quoted statement are those of the walk. -/
theorem tokenize_quoteReserved (table : ReservedWords) (sql : Text) :
    tokenize (quoteReserved table sql) = quoteTokens table (tokenize sql) :=
  (tokenize_requoted (quoteTokensFrom_requoted table .initial (tokenize sql))).1

theorem Requoted.eq_of_kind_ne {P : Text → Prop} {t u : Token} (h : Requoted P t u)
    (hkind : t.kind ≠ .word) : u = t := by
  cases h with
  | same => rfl
  | quoted hword => exact absurd hword hkind

/-- **Main.**  Quoting changes nothing but words that the table has and that are not among the
words that are never quoted: the tokens of the result stand one by one for those of the
statement, and all that are not words are the same. -/
theorem quoteReserved_changes_only_words (table : ReservedWords) (sql : Text) :
    List.Forall₂ (Requoted (Quotable table)) (tokenize sql) (tokenize (quoteReserved table sql)) ∧
    (∀ (i : Nat) (t : Token), (tokenize sql)[i]? = some t → t.kind ≠ .word →
      (tokenize (quoteReserved table sql))[i]? = some t) ∧
    (tokenize sql).flatMap Token.text = sql := by
  have h : List.Forall₂ (Requoted (Quotable table)) (tokenize sql)
      (tokenize (quoteReserved table sql)) := by
    rw [tokenize_quoteReserved]
    exact quoteTokensFrom_requoted table .initial (tokenize sql)
  refine ⟨h, ?_, flatMap_text_tokenize sql⟩
  intro i t ht hkind
  obtain ⟨hi, rfl⟩ := List.getElem?_eq_some_iff.mp ht
  have hi' : i < (tokenize (quoteReserved table sql)).length := h.length_eq ▸ hi
  have hsame := (h.get hi hi').eq_of_kind_ne hkind
  rw [List.getElem?_eq_getElem hi']
  exact congrArg some hsame

/-! ### Questions about neighbours -/

/-- Words that are never quoted. -/
def Kept (words : List Text) : Prop := ∀ w ∈ words, Text.memFold w neverQuoted = true

instance (words : List Text) : Decidable (Kept words) :=
  inferInstanceAs (Decidable (∀ w ∈ words, Text.memFold w neverQuoted = true))

section Neighbours

variable {table : ReservedWords} {t u : Token} (h : Requoted (Quotable table) t u)

include h

theorem Requoted.isWordIn_eq {words : List Text} (hwords : Kept words) :
    u.isWordIn words = t.isWordIn words := by
  cases h with
  | same => rfl
  | quoted hword hquotable =>
    have hnot : Text.memFold t.text words = false := by
      rw [Bool.eq_false_iff]
      intro hmem
      have := Text.memFold_of_forall hmem hwords
      rw [hquotable.ordinary] at this
      cases this
    simp [Token.isWordIn, hnot]

theorem Requoted.isWord_eq {word : Text} (hword : Kept [word]) : u.isWord word = t.isWord word := by
  have := h.isWordIn_eq hword
  simpa [Token.isWordIn, Text.memFold, Token.isWord] using this

theorem Requoted.isPunct_eq (p : Text) : u.isPunct p = t.isPunct p := by
  cases h with
  | same => rfl
  | quoted hword => rw [Token.isPunct, Token.isPunct, hword]; rfl

theorem Requoted.isName_eq : u.isName = t.isName := by
  cases h with
  | same => rfl
  | quoted hword => rw [Token.isName, Token.isName, hword]; rfl

theorem Requoted.isSignificant_eq : u.isSignificant = t.isSignificant := by
  cases h with
  | same => rfl
  | quoted hword => rw [Token.isSignificant, Token.isSignificant, hword]; rfl

end Neighbours

/-- Two tokens next to a token, if there are any, of which one stands in place of the other. -/
abbrev Neighbour (table : ReservedWords) : Option Token → Option Token → Prop :=
  Option.Rel (Requoted (Quotable table))

section Neighbour

variable {table : ReservedWords} {a b prev prev' next next' : Option Token}

theorem Neighbour.any_eq {p : Token → Bool} (h : Neighbour table a b)
    (hp : ∀ t u, Requoted (Quotable table) t u → p u = p t) :
    b.any p = a.any p := by
  cases h with
  | none => rfl
  | some h => exact hp _ _ h

theorem Neighbour.isNone_eq (h : Neighbour table a b) : b.isNone = a.isNone := by
  cases h <;> rfl

theorem Neighbour.any_isWordIn (h : Neighbour table a b) (words : List Text)
    (hwords : Kept words) :
    b.any (·.isWordIn words) = a.any (·.isWordIn words) :=
  h.any_eq fun _ _ htu => htu.isWordIn_eq hwords

theorem Neighbour.any_isWord (h : Neighbour table a b) (word : Text) (hword : Kept [word]) :
    b.any (·.isWord word) = a.any (·.isWord word) :=
  h.any_eq fun _ _ htu => htu.isWord_eq hword

theorem Neighbour.any_isPunct (h : Neighbour table a b) (p : Text) :
    b.any (·.isPunct p) = a.any (·.isPunct p) :=
  h.any_eq fun _ _ htu => htu.isPunct_eq p

theorem Neighbour.isListItem_eq (hprev : Neighbour table prev prev')
    (hnext : Neighbour table next next') (clause : Clause) :
    isListItem prev' next' clause = isListItem prev next clause := by
  cases clause with
  | select =>
    rw [isListItem, isListItem, hprev.any_isWordIn _ (by decide +kernel), hprev.any_isPunct,
      hnext.isNone_eq, hnext.any_isPunct, hnext.any_isPunct,
      hnext.any_isWordIn _ (by decide +kernel)]
  | source => exact hprev.any_isPunct _
  | orderList =>
    rw [isListItem, isListItem, hprev.any_isPunct, hprev.any_isWord _ (by decide +kernel)]
  | intoColumns => rw [isListItem, isListItem, hprev.any_isPunct, hprev.any_isPunct]
  | other => rfl

/-- A word is an identifier in both places or in none. -/
theorem Neighbour.isIdentifier_eq (hprev : Neighbour table prev prev')
    (hnext : Neighbour table next next') (token : Token) (clause : Clause) :
    isIdentifier token prev' next' clause = isIdentifier token prev next clause := by
  have hby := hnext.any_isWord "BY" (by decide +kernel)
  have htable := hprev.any_isWordIn tableIntroducers (by decide +kernel)
  have has := hprev.any_isWord "AS" (by decide +kernel)
  simp only [isIdentifier, hby, htable, has, hprev.any_isPunct, hnext.any_isPunct,
    hprev.isListItem_eq hnext]

end Neighbour

/-! ### The second walk -/

/-- The words that begin a list when `BY` follows them. -/
def listWords : List Text := ["ORDER", "GROUP"]

/-- What two walks know before the significant token `next`: one walk over tokens and one over
those that stand in their places. -/
structure Context.Alike (table : ReservedWords) (next : Option Token) (c d : Context) : Prop where
  prev : Neighbour table c.prev d.prev
  prev2 : Neighbour table c.prev2 d.prev2
  clause : d.clause = c.clause
  outer : d.outer = c.outer
  /-- Before `BY` the word that begins a list is not in quotes. -/
  list : next.any (·.isWord "BY") = true →
    d.prev.any (·.isWordIn listWords) = c.prev.any (·.isWordIn listWords)

section SecondWalk

variable {table : ReservedWords} {t u : Token} {c c' d : Context} {next next' : Option Token}

theorem Context.Alike.clauseAfter?_eq (h : c.Alike table (some t) d) (hword : t.kind = .word) :
    clauseAfter? t.text d.prev = clauseAfter? t.text c.prev := by
  -- only `BY` asks about the token before it
  by_cases hby : Text.toUpper t.text = "BY"
  · have hfold : t.isWord "BY" = true := by
      rw [Token.isWord, hword, Text.eqFold_iff.mpr]
      · rfl
      · rw [← Text.toLower_toUpper, hby]
    have hlist := h.list hfold
    simp only [listWords] at hlist
    simp only [clauseAfter?, hlist]
  · simp only [clauseAfter?, if_neg hby]

theorem Context.Alike.quotes_eq (h : c.Alike table (some t) d)
    (hnext : Neighbour table next next') :
    quotes table d t next' = quotes table c t next := by
  rw [quotes, quotes, h.clause, h.prev.isIdentifier_eq hnext]
  cases hkind : t.kind == .word with
  | true => rw [h.clauseAfter?_eq (by simpa using hkind)]
  | false => rfl

/-- Behind a token that stays as it is. -/
theorem Context.Alike.after (h : c.Alike table (some t) d) (next : Option Token) :
    (c.after t).Alike table next (d.after t) where
  prev := .some .same
  prev2 := h.prev
  clause := by
    have hname := h.prev.any_eq (p := Token.isName) fun _ _ htu => htu.isName_eq
    have hinto := h.prev2.any_isWord "INTO" (by decide +kernel)
    simp only [Context.after, Context.clauseAfter, h.clause, h.outer, hname, hinto]
    split
    · rfl
    · split
      · rfl
      · split
        · next hword => rw [h.clauseAfter?_eq hword]
        · rfl
  outer := by simp only [Context.after, Context.outerAfter, h.clause, h.outer]
  list _ := rfl

/-- Behind a word that is put in quotes. -/
theorem Context.Alike.after_quoted (h : c.Alike table (some t) d)
    (hq : quotes table c t next = true)
    (hu : Requoted (Quotable table) t ⟨.quotedName, quoted t.text⟩) :
    (c.after t).Alike table next (d.after ⟨.quotedName, quoted t.text⟩) := by
  simp only [quotes, Bool.and_eq_true, beq_iff_eq, Option.isNone_iff_eq_none] at hq
  obtain ⟨⟨⟨hword, hclause⟩, -⟩, hident⟩ := hq
  refine ⟨.some hu, h.prev, ?_, ?_, ?_⟩
  · simp [Context.after, Context.clauseAfter, Token.isPunct, hword, hclause, h.clause]
  · simp [Context.after, Context.outerAfter, Token.isPunct, hword, h.outer]
  · intro hby
    -- a word that begins a list is no identifier before `BY`, and `t` is one
    have hlist : t.isWordIn listWords = false := by
      rw [Bool.eq_false_iff]
      intro hlist
      simp only [listWords] at hlist
      simp [isIdentifier, hlist, hby] at hident
    simp only [Context.after, Option.any_some, hlist]
    rfl

/-- **A second step leaves the token that the first one left.** -/
theorem stepToken_again (hstep : stepToken table c t next = (u, c'))
    (h : c.Alike table (some t) d) (hnext : Neighbour table next next') :
    ∃ d', stepToken table d u next' = (u, d') ∧ c'.Alike table next d' := by
  have hu := stepToken_requoted table c t next
  rw [hstep] at hu
  rw [stepToken_eq] at hstep
  cases hq : quotes table c t next with
  | true =>
    -- what is quoted already is no word
    rw [hq, if_pos rfl] at hstep
    obtain ⟨rfl, rfl⟩ := Prod.mk.inj hstep
    refine ⟨_, ?_, h.after_quoted hq hu⟩
    rw [stepToken_eq, if_neg (by simp [quotes])]
  | false =>
    rw [hq, if_neg (by decide)] at hstep
    obtain ⟨rfl, rfl⟩ := Prod.mk.inj hstep
    refine ⟨_, ?_, h.after next⟩
    rw [stepToken_eq, h.quotes_eq hnext, hq, if_neg (by decide)]

end SecondWalk

theorem find?_isSignificant {table : ReservedWords} {ts us : List Token}
    (h : List.Forall₂ (Requoted (Quotable table)) ts us) :
    Neighbour table (ts.find? Token.isSignificant) (us.find? Token.isSignificant) := by
  induction h with
  | nil => exact .none
  | @cons t u ts us htu _ ih =>
    rw [List.find?_cons, List.find?_cons, htu.isSignificant_eq]
    cases t.isSignificant with
    | true => exact .some htu
    | false => exact ih

/-- **A second walk leaves the tokens that the first one left.** -/
theorem quoteTokensFrom_again {table : ReservedWords} {c d : Context} (tokens : List Token)
    (h : c.Alike table (tokens.find? Token.isSignificant) d) :
    quoteTokensFrom table d (quoteTokensFrom table c tokens) = quoteTokensFrom table c tokens := by
  induction tokens generalizing c d with
  | nil => rfl
  | cons t rest ih =>
    rw [quoteTokensFrom]
    cases hsig : t.isSignificant with
    | false =>
      -- blanks and comments leave the context, and the token that comes next, as they are
      rw [List.find?_cons_of_neg (by simp [hsig])] at h
      simp only [Bool.false_eq_true, if_false, quoteTokensFrom, hsig, ih h]
    | true =>
      rw [List.find?_cons_of_pos hsig] at h
      have hu := stepToken_requoted table c t (rest.find? Token.isSignificant)
      rcases hstep : stepToken table c t (rest.find? Token.isSignificant) with ⟨u, c'⟩
      rw [hstep] at hu
      obtain ⟨d', hagain, halike⟩ := stepToken_again hstep h
        (find?_isSignificant (quoteTokensFrom_requoted table c' rest))
      simp only [if_true, quoteTokensFrom, hu.isSignificant_eq, hsig, hagain, ih halike]

/-- **Main.**  Quoting reserved words twice is quoting them once. -/
theorem quoteReserved_idempotent (table : ReservedWords) (sql : Text) :
    quoteReserved table (quoteReserved table sql) = quoteReserved table sql := by
  have halike : Context.initial.Alike table ((tokenize sql).find? Token.isSignificant) .initial :=
    ⟨.none, .none, rfl, rfl, fun _ => rfl⟩
  rw [quoteReserved, tokenize_quoteReserved, quoteTokens, quoteTokens,
    quoteTokensFrom_again _ halike]
  rfl

-- `ORDER` as a column, as a table and as the word that begins the list
example : quoteReserved ⟨["ORDER"]⟩ "SELECT ORDER FROM ORDER ORDER BY ORDER" =
    "SELECT \"ORDER\" FROM \"ORDER\" ORDER BY \"ORDER\"" := by
  decide +kernel

end PascalSurvey.Sql
