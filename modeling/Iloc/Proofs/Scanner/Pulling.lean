import Iloc.Proofs.Scanner.Stream

namespace Iloc

/-!
# Reading by hand

A caller that drives a scanner by hand is given the tokens of the text one after
the other, and then the end of the text as often as it asks.  What it is told
depends on nothing but the number of tokens that it has asked for: asking for
the line in between makes no difference.

The line of a scanner is the line of the token that it reads next.  So the token
list of a text tells every reply that a scanner on this text will ever give.
-/

/--
The token in some place of a token list.  Behind its last token the list goes on
with that token for ever.
-/
def tokenAt (tokens : List Token) (place : Nat) : Token :=
  tokens.getD place (tokens.getLastD ⟨.eof, 1⟩)

/-- In the places that a token list has stand its own tokens. -/
theorem tokenAt_of_getElem?
    {tokens : List Token}
    {place : Nat}
    {token : Token}
    (isThere : tokens[place]? = some token) :
    tokenAt tokens place = token := by
  rw [tokenAt, List.getD_eq_getElem?_getD, isThere]
  rfl

/-- From its last place on a token list has no other token than the last. -/
theorem tokenAt_concat
    {body : List Token}
    {last : Token}
    {place : Nat}
    (beyond : body.length ≤ place) :
    tokenAt (body ++ [last]) place = last := by
  rcases Nat.eq_or_lt_of_le beyond with rfl | farther
  · exact tokenAt_of_getElem? List.getElem?_concat_length
  · have none : (body ++ [last])[place]? = none := by
      rw [List.getElem?_eq_none_iff, List.length_append]
      exact farther
    rw [tokenAt, List.getD_eq_getElem?_getD, none, List.getLastD_concat]
    rfl

/-- Without its first token a list has the same tokens one place earlier. -/
theorem tokenAt_cons_succ
    (first : Token)
    {rest : List Token}
    (nonempty : rest ≠ [])
    (place : Nat) :
    tokenAt (first :: rest) (place + 1) = tokenAt rest place := by
  obtain ⟨second, others, rfl⟩ := List.exists_cons_of_ne_nil nonempty
  rfl

namespace Scanner

variable {scanner : Scanner}

/-- The scanner that a number of readings lead to. -/
def afterReadings : Nat → Scanner → Scanner
  | 0, scanner => scanner
  | number + 1, scanner => scanner.next.2.afterReadings number

/-- Of the tokens that are skipped only their number counts. -/
theorem skip_eq_afterReadings
    (scanner : Scanner)
    (tokens : List Token) :
    scanner.skip tokens = scanner.afterReadings tokens.length := by
  induction tokens generalizing scanner with
  | nil =>
      rfl
  | cons token rest inductionHypothesis =>
      exact inductionHypothesis scanner.next.2

/-- Every text has a token. -/
theorem tokens_ne_nil
    (scanner : Scanner) :
    scanner.tokens ≠ [] := by
  rw [tokens]
  split
  · exact List.cons_ne_nil _ _
  · exact List.cons_ne_nil _ _

/-- The token that is read next is the first one ahead. -/
theorem tokenAt_tokens_zero
    (scanner : Scanner) :
    tokenAt scanner.tokens 0 = scanner.next.1 := by
  by_cases atEnd : scanner.AtEnd
  · rw [tokens_of_eof atEnd]
    rfl
  · rw [tokens_of_ne_eof atEnd]
    rfl

/--
Behind the token that is read next the others are ahead as before.  This is so
at the end as well, because the end is read again and again on the same line.
-/
theorem tokenAt_tokens_succ
    (scanner : Scanner)
    (number : Nat) :
    tokenAt scanner.tokens (number + 1) =
      tokenAt scanner.next.2.tokens number := by
  by_cases atEnd : scanner.AtEnd
  · have sameEnd : scanner.next.2.tokens = scanner.tokens := by
      rw [tokens_of_atEnd (atEnd_next atEnd), tokens_of_atEnd atEnd,
        line_next_of_atEnd atEnd]
    have single : scanner.tokens = [] ++ [⟨.eof, scanner.line⟩] :=
      tokens_of_atEnd atEnd
    rw [sameEnd, single, tokenAt_concat (Nat.zero_le _),
      tokenAt_concat (Nat.zero_le _)]
  · rw [tokens_of_ne_eof atEnd, tokenAt_cons_succ]
    exact scanner.next.2.tokens_ne_nil

/-- Readings return the tokens of the text in order, and then its end. -/
theorem next_afterReadings
    (scanner : Scanner)
    (number : Nat) :
    (scanner.afterReadings number).next.1 =
      tokenAt scanner.tokens number := by
  induction number generalizing scanner with
  | zero =>
      exact scanner.tokenAt_tokens_zero.symm
  | succ number inductionHypothesis =>
      rw [tokenAt_tokens_succ, ← inductionHypothesis]
      rfl

/-- What a query comes to when a number of tokens have been read. -/
def replyAt (tokens : List Token) (number : Nat) : Query → Reply
  | .next =>
      ⟨some (tokenAt tokens number), (tokenAt tokens (number + 1)).line⟩
  | .line =>
      ⟨none, (tokenAt tokens number).line⟩

/-- The reply to a query is told by the tokens ahead. -/
theorem answer_eq
    (scanner : Scanner)
    (query : Query) :
    (scanner.answer query).1 = replyAt scanner.tokens 0 query := by
  cases query with
  | next =>
      rw [replyAt, tokenAt_tokens_succ, tokenAt_tokens_zero,
        tokenAt_tokens_zero, line_next]
      rfl
  | line =>
      rw [replyAt, tokenAt_tokens_zero, line_next]
      rfl

/-- Behind the token that is read next every query has the same reply. -/
theorem replyAt_succ
    (scanner : Scanner)
    (number : Nat)
    (query : Query) :
    replyAt scanner.tokens (number + 1) query =
      replyAt scanner.next.2.tokens number query := by
  cases query with
  | next =>
      rw [replyAt, replyAt, tokenAt_tokens_succ, tokenAt_tokens_succ]
  | line =>
      rw [replyAt, replyAt, tokenAt_tokens_succ]

/-- The reply to every query is told by the number of tokens read before it. -/
theorem getElem?_answers
    (scanner : Scanner)
    (queries : List Query)
    (place : Nat) :
    (scanner.answers queries)[place]? =
      queries[place]?.map
        (replyAt scanner.tokens ((queries.take place).count .next)) := by
  induction queries generalizing scanner place with
  | nil =>
      rfl
  | cons query queries inductionHypothesis =>
      cases place with
      | zero =>
          exact congrArg some (scanner.answer_eq query)
      | succ place =>
          rw [answers, List.getElem?_cons_succ, List.getElem?_cons_succ,
            inductionHypothesis, List.take_succ_cons]
          cases query with
          | next =>
              rw [List.count_cons_self]
              congr 1
              funext later
              exact (replyAt_succ scanner _ later).symm
          | line =>
              rw [List.count_cons_of_ne (by decide)]
              rfl

/-- The last token ahead is the end of the text, and no other token is. -/
theorem exists_tokens_eq_concat
    (scanner : Scanner) :
    ∃ body line,
      scanner.tokens = body ++ [⟨.eof, line⟩] ∧
        ∀ token ∈ body, token.kind ≠ .eof := by
  induction scanner using induction_next with
  | ended scanner atEnd =>
      exact ⟨[], scanner.line, tokens_of_atEnd atEnd,
        List.forall_mem_nil _⟩
  | inner scanner inner inductionHypothesis =>
      obtain ⟨body, line, shape, allInner⟩ := inductionHypothesis
      refine ⟨scanner.next.1 :: body, line, ?_, ?_⟩
      · rw [tokens_of_ne_eof inner, shape]
        rfl
      · exact List.forall_mem_cons.mpr ⟨inner, allInner⟩

/-- Every token but the end takes a character, so there are not many tokens. -/
theorem length_tokens_le
    (scanner : Scanner) :
    scanner.tokens.length ≤ scanner.rest.length + 1 := by
  induction scanner using induction_next with
  | ended scanner atEnd =>
      rw [tokens_of_eof atEnd]
      exact Nat.le_add_left _ _
  | inner scanner inner inductionHypothesis =>
      rw [tokens_of_ne_eof inner, List.length_cons]
      exact
        Nat.succ_le_succ
          (Nat.le_trans inductionHypothesis
            (scanner.length_rest_next_lt inner))

/-- One more reading is one more. -/
theorem afterReadings_succ
    (scanner : Scanner)
    (number : Nat) :
    scanner.afterReadings (number + 1) =
      (scanner.afterReadings number).next.2 := by
  induction number generalizing scanner with
  | zero =>
      rfl
  | succ number inductionHypothesis =>
      exact inductionHypothesis scanner.next.2

/-- A reading before the end takes at least one character. -/
theorem length_rest_afterReadings_lt
    (scanner : Scanner)
    {number : Nat}
    (inner : (tokenAt scanner.tokens number).kind ≠ .eof) :
    (scanner.afterReadings (number + 1)).rest.length <
      (scanner.afterReadings number).rest.length := by
  rw [← next_afterReadings] at inner
  rw [afterReadings_succ]
  exact length_rest_next_lt _ inner

end Scanner

/--
Whatever a caller asks of a scanner, and in whatever order, the replies are told
by the token list of the text: a reading returns the next token of the list, or
the end again, and the line is always that of the token that comes next.

The list has the end of the text as its last token and nowhere else, and at most
one token more than the text has characters, since every reading before the end
takes a character.
-/
theorem pulling_agrees_with_scan
    (source : String)
    (queries : List Scanner.Query) :
    let tokens := scan source
    let scanner := Scanner.ofSource source
    (∀ place,
      (scanner.answers queries)[place]? =
        queries[place]?.map
          (Scanner.replyAt tokens ((queries.take place).count .next))) ∧
      (∀ number token,
        tokens[number]? = some token → tokenAt tokens number = token) ∧
      (∃ body line,
        tokens = body ++ [⟨.eof, line⟩] ∧
          (∀ token ∈ body, token.kind ≠ .eof) ∧
          (∀ number,
            body.length ≤ number → tokenAt tokens number = ⟨.eof, line⟩) ∧
          ∀ number,
            number < body.length →
              (scanner.afterReadings (number + 1)).rest.length <
                (scanner.afterReadings number).rest.length) ∧
      tokens.length ≤ source.toList.length + 1 := by
  intro tokens scanner
  obtain ⟨body, line, shape, allInner⟩ := scanner.exists_tokens_eq_concat
  have tokensShape : tokens = body ++ [⟨.eof, line⟩] := shape
  refine ⟨scanner.getElem?_answers queries,
    fun _ _ => tokenAt_of_getElem?,
    ⟨body, line, shape, allInner, ?_, ?_⟩, scanner.length_tokens_le⟩
  · intro number beyond
    rw [tokensShape, tokenAt_concat beyond]
  · intro number inBody
    apply scanner.length_rest_afterReadings_lt
    have isThere : scanner.tokens[number]? = some body[number] := by
      rw [shape, List.getElem?_append_left inBody,
        List.getElem?_eq_getElem inBody]
    rw [tokenAt_of_getElem? isThere]
    exact allInner _ (List.getElem_mem inBody)

/-- A caller that goes on asking at the end of a comment. -/
example :
    (Scanner.ofSource "r1//").answers
        [.next, .line, .next, .next, .line, .next] =
      [⟨some ⟨.register 1, 1⟩, 1⟩, ⟨none, 1⟩, ⟨some ⟨.comment, 1⟩, 1⟩,
        ⟨some ⟨.eof, 1⟩, 1⟩, ⟨none, 1⟩, ⟨some ⟨.eof, 1⟩, 1⟩] := by
  decide +kernel

end Iloc
