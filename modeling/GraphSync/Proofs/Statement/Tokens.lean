import GraphSync.Proofs.Schema.Validation
import GraphSync.Proofs.Statement.Scanning

/-! The tokens of a text. Every text is written by one sequence of tokens that keeps the grammar,
and that is the one which is read. What stands in a literal has no part in the names of a text. -/
namespace GraphSync.Placeholder

/-- Letters, digits and the underscore, which names are made of. -/
def IsNameChar (c : Char) : Prop := IsInitial c ∨ ('0' ≤ c ∧ c ≤ '9')

/-- The two quotes of string literals, and the one of quoted names. -/
def IsQuote (c : Char) : Prop := c = '\'' ∨ c = '"' ∨ c = '\x60'

/-- What can stand in a literal without closing it. A backslash takes the next character with it,
but not in a quoted name. -/
inductive Inside (quote : Char) : List Char → Prop
  | nil : Inside quote []
  | char {c : Char} {cs : List Char} (hc : c ≠ quote) (hslash : c = '\\' → quote = '\x60')
      (h : Inside quote cs) : Inside quote (c :: cs)
  | escaped {c : Char} {cs : List Char} (hquote : quote ≠ '\x60') (h : Inside quote cs) :
      Inside quote ('\\' :: c :: cs)

/-- What can stand in a literal that is not closed. Its last character may be a backslash that has
nothing to escape. -/
inductive Unclosed (quote : Char) : List Char → Prop
  | inside {body : List Char} (h : Inside quote body) : Unclosed quote body
  | cut {body : List Char} (hquote : quote ≠ '\x60') (h : Inside quote body) :
      Unclosed quote (body ++ ['\\'])

/-- The characters of a token. -/
def Token.text : Token → List Char
  | .literal quote body closed => quote :: (body ++ if closed then [quote] else [])
  | .parameter name => '$' :: name
  | .plain c => [c]

def written (ts : List Token) : List Char := ts.flatMap Token.text

/-- No name goes on here. -/
def EndsName (cs : List Char) : Prop := ∀ c ∈ cs.head?, ¬ IsNameChar c

/-- Sequences of tokens that can be told apart in the text that they write. -/
inductive Grammar : List Token → Prop
  | nil : Grammar []
  | literal {quote : Char} {body : List Char} {ts : List Token} (hquote : IsQuote quote)
      (hbody : Inside quote body) (h : Grammar ts) : Grammar (.literal quote body true :: ts)
  /-- A literal that is not closed is the last token. -/
  | unclosed {quote : Char} {body : List Char} (hquote : IsQuote quote)
      (hbody : Unclosed quote body) : Grammar [.literal quote body false]
  /-- A name is not empty, and as long as it can be. -/
  | parameter {name : List Char} {ts : List Token} (hne : name ≠ [])
      (hname : ∀ c ∈ name, IsNameChar c) (hend : EndsName (written ts)) (h : Grammar ts) :
      Grammar (.parameter name :: ts)
  /-- A dollar sign by itself has no name behind it. -/
  | plain {c : Char} {ts : List Token} (hquote : ¬ IsQuote c)
      (hend : c = '$' → EndsName (written ts)) (h : Grammar ts) : Grammar (.plain c :: ts)

/-- The tokens write the text and keep the grammar. -/
structure Splits (text : String) (ts : List Token) : Prop where
  written : written ts = text.toList
  grammar : Grammar ts

/-- The same tokens, but for what stands in literals. -/
inductive Refilled : List Token → List Token → Prop
  | nil : Refilled [] []
  | literal {quote : Char} {body other : List Char} {closed : Bool} {ts us : List Token}
      (hother : Grammar [.literal quote other closed]) (h : Refilled ts us) :
      Refilled (.literal quote body closed :: ts) (.literal quote other closed :: us)
  | same {t : Token} {ts us : List Token} (h : Refilled ts us) : Refilled (t :: ts) (t :: us)

variable {text : String} {quote c : Char} {cs body rest after name : List Char} {ts us : List Token}

theorem isNameChar_iff : isNameChar c = true ↔ IsNameChar c := isInitial_or_digit_iff

theorem isQuote_iff : isQuote c = true ↔ IsQuote c := by
  simp [isQuote, IsQuote, or_assoc]

theorem escapes_iff : escapes quote c = true ↔ c = '\\' ∧ quote ≠ '\x60' := by
  simp [escapes]

theorem IsQuote.ne_backslash (h : IsQuote quote) : quote ≠ '\\' := by
  rintro rfl
  revert h
  simp [IsQuote]

theorem endsName_iff : EndsName cs ↔ cs.takeWhile isNameChar = [] := by
  cases cs with
  | nil => simp [EndsName]
  | cons c cs =>
    simp only [EndsName, List.head?_cons, Option.mem_some_iff, forall_eq']
    rw [← isNameChar_iff, List.takeWhile_cons]
    split <;> simp_all

theorem Unclosed.char (hc : c ≠ quote) (hslash : c = '\\' → quote = '\x60')
    (h : Unclosed quote cs) : Unclosed quote (c :: cs) := by
  cases h with
  | inside h => exact .inside (.char hc hslash h)
  | cut hquote h => exact .cut hquote (.char hc hslash h)

theorem Unclosed.escaped (hquote : quote ≠ '\x60') (h : Unclosed quote cs) :
    Unclosed quote ('\\' :: c :: cs) := by
  cases h with
  | inside h => exact .inside (.escaped hquote h)
  | cut hquote h => exact .cut hquote (.escaped hquote h)

/-! Reading a literal character by character. -/

theorem readLiteral_quote (quote : Char) (rest : List Char) :
    readLiteral quote (quote :: rest) = ([], true, rest) := by
  cases rest <;> simp [readLiteral]

theorem readLiteral_char (hc : c ≠ quote) (hslash : ¬ escapes quote c = true) :
    readLiteral quote (c :: cs) = (c :: (readLiteral quote cs).1, (readLiteral quote cs).2) := by
  cases cs <;> simp [readLiteral, hc, hslash]

theorem readLiteral_escaped (hquote : quote ≠ '\x60') (hslash : '\\' ≠ quote) :
    readLiteral quote ('\\' :: c :: cs) =
      ('\\' :: c :: (readLiteral quote cs).1, (readLiteral quote cs).2) := by
  simp [readLiteral, hslash, escapes, hquote]

/-- Nothing in the body of a literal closes it. -/
theorem readLiteral_append (hquote : IsQuote quote) (hbody : Inside quote body) (cs : List Char) :
    readLiteral quote (body ++ cs) =
      (body ++ (readLiteral quote cs).1, (readLiteral quote cs).2) := by
  induction hbody with
  | nil => rfl
  | char hc hslash _ ih =>
    have hplain : ¬ escapes quote _ = true := fun h =>
      (escapes_iff.1 h).2 (hslash (escapes_iff.1 h).1)
    rw [List.cons_append, readLiteral_char hc hplain, ih]
    rfl
  | escaped hname _ ih =>
    rw [List.cons_append, List.cons_append, readLiteral_escaped hname hquote.ne_backslash.symm, ih]
    rfl

theorem readLiteral_closed (hquote : IsQuote quote) (hbody : Inside quote body) :
    readLiteral quote (body ++ quote :: rest) = (body, true, rest) := by
  rw [readLiteral_append hquote hbody, readLiteral_quote, List.append_nil]

theorem readLiteral_unclosed (hquote : IsQuote quote) (hbody : Unclosed quote body) :
    readLiteral quote body = (body, false, []) := by
  cases hbody with
  | inside h =>
    have hread := readLiteral_append hquote h []
    rwa [List.append_nil, readLiteral, List.append_nil] at hread
  | cut hname h =>
    rw [readLiteral_append hquote h, readLiteral, if_neg hquote.ne_backslash.symm]

/-- A literal that is read is written like this, and nothing in it closes it. -/
theorem readLiteral_cases (quote : Char) (cs : List Char) :
    (∃ body after, readLiteral quote cs = (body, true, after) ∧ cs = body ++ quote :: after ∧
      Inside quote body) ∨
    (readLiteral quote cs = (cs, false, []) ∧ Unclosed quote cs) := by
  fun_induction readLiteral quote cs with
  | case1 => exact .inr ⟨rfl, .inside .nil⟩
  | case2 => exact .inl ⟨[], [], rfl, rfl, .nil⟩
  | case3 c hc =>
    refine .inr ⟨rfl, ?_⟩
    by_cases hslash : escapes quote c = true
    · obtain ⟨rfl, hname⟩ := escapes_iff.1 hslash
      exact .cut hname .nil
    · have hplain : c = '\\' → quote = '\x60' := fun h =>
        not_not.1 fun hname => hslash (escapes_iff.2 ⟨h, hname⟩)
      exact .inside (.char hc hplain .nil)
  | case4 d rest => exact .inl ⟨[], d :: rest, rfl, rfl, .nil⟩
  | case5 c d rest hc hslash body closed after hread ih =>
    obtain ⟨rfl, hname⟩ := escapes_iff.1 hslash
    rw [hread] at ih
    rcases ih with ⟨_, _, ⟨rfl, rfl, rfl⟩, rfl, hbody⟩ | ⟨⟨rfl, rfl, rfl⟩, hbody⟩
    · exact .inl ⟨_, _, rfl, rfl, .escaped hname hbody⟩
    · exact .inr ⟨rfl, .escaped hname hbody⟩
  | case6 c d rest hc hslash body closed after hread ih =>
    have hplain : c = '\\' → quote = '\x60' := fun h =>
      not_not.1 fun hname => hslash (escapes_iff.2 ⟨h, hname⟩)
    rw [hread] at ih
    rcases ih with ⟨_, _, ⟨rfl, rfl, rfl⟩, hrest, hbody⟩ | ⟨⟨rfl, rfl, rfl⟩, hbody⟩
    · exact .inl ⟨_, _, rfl, congrArg (c :: ·) hrest, .char hc hplain hbody⟩
    · exact .inr ⟨rfl, .char hc hplain hbody⟩

/-! The tokens that are read are those that write the text. -/

theorem written_cons (t : Token) (ts : List Token) : written (t :: ts) = t.text ++ written ts :=
  List.flatMap_cons

theorem not_isQuote_dollar : ¬ isQuote '$' = true := by decide

theorem tokens_written (h : Grammar ts) : tokens (written ts) = ts := by
  induction h with
  | nil => simp [written, tokens]
  | @literal quote body ts hquote hbody _ ih =>
    have htext : written (.literal quote body true :: ts) =
        quote :: (body ++ quote :: written ts) := by
      simp [written_cons, Token.text]
    rw [htext, tokens, if_pos (isQuote_iff.2 hquote), readLiteral_closed hquote hbody, ih]
  | @unclosed quote body hquote hbody =>
    have htext : written [.literal quote body false] = quote :: body := by
      simp [written, Token.text]
    rw [htext, tokens, if_pos (isQuote_iff.2 hquote), readLiteral_unclosed hquote hbody, tokens]
  | @parameter name ts hne hname hend _ ih =>
    have hall : ∀ c ∈ name, isNameChar c = true := fun c hc => isNameChar_iff.2 (hname c hc)
    have hnone := endsName_iff.1 hend
    have hdrop : (written ts).dropWhile isNameChar = written ts := by
      have hsplit : (written ts).takeWhile isNameChar ++ (written ts).dropWhile isNameChar =
        written ts := List.takeWhile_append_dropWhile
      rwa [hnone, List.nil_append] at hsplit
    have htext : written (.parameter name :: ts) = '$' :: (name ++ written ts) := rfl
    rw [htext, tokens, if_neg not_isQuote_dollar, if_pos rfl, List.takeWhile_append_of_pos hall,
      hnone, List.append_nil, List.dropWhile_append_of_pos hall, hdrop, ih]
    obtain ⟨c, cs, rfl⟩ := List.exists_cons_of_ne_nil hne
    rfl
  | @plain c ts hquote hend _ ih =>
    have htext : written (.plain c :: ts) = c :: written ts := rfl
    rw [htext, tokens, if_neg fun h => hquote (isQuote_iff.1 h)]
    split
    · next hdollar => rw [endsName_iff.1 (hend hdollar), ih]
    · rw [ih]

theorem splits_tokens (cs : List Char) : written (tokens cs) = cs ∧ Grammar (tokens cs) := by
  fun_induction tokens cs with
  | case1 => exact ⟨rfl, .nil⟩
  | case2 c rest hquote ih =>
    obtain ⟨htext, hgrammar⟩ := ih
    have hc := isQuote_iff.1 hquote
    rcases readLiteral_cases c rest with ⟨body, after, hread, rfl, hbody⟩ | ⟨hread, hbody⟩
    · rw [hread] at htext hgrammar ⊢
      refine ⟨?_, .literal hc hbody hgrammar⟩
      rw [written_cons, htext]
      simp [Token.text]
    · rw [hread, tokens]
      refine ⟨?_, .unclosed hc hbody⟩
      simp [written, Token.text]
  | case3 rest hname hquote ih =>
    obtain ⟨htext, hgrammar⟩ := ih
    have hends : EndsName (written (tokens rest)) := by
      rw [htext]
      exact endsName_iff.2 hname
    exact ⟨congrArg ('$' :: ·) htext,
      .plain (fun h => hquote (isQuote_iff.2 h)) (fun _ => hends) hgrammar⟩
  | case4 rest n name hname hquote ih =>
    obtain ⟨htext, hgrammar⟩ := ih
    have hends : EndsName (written (tokens (rest.dropWhile isNameChar))) := by
      intro c hc
      have hhead := List.head?_dropWhile_not isNameChar rest
      rw [htext, Option.mem_def] at hc
      rw [hc] at hhead
      rw [← isNameChar_iff, hhead]
      exact Bool.false_ne_true
    refine ⟨?_, .parameter (List.cons_ne_nil _ _) (fun c hc => ?_) hends hgrammar⟩
    · rw [written_cons, htext, ← hname]
      exact congrArg ('$' :: ·) List.takeWhile_append_dropWhile
    · rw [← hname] at hc
      exact isNameChar_iff.1 (List.mem_takeWhile_imp hc)
  | case5 c rest hquote hdollar ih =>
    obtain ⟨htext, hgrammar⟩ := ih
    exact ⟨congrArg (c :: ·) htext, .plain (fun h => hquote (isQuote_iff.2 h))
      (fun h => absurd h hdollar) hgrammar⟩

theorem splits_iff : Splits text ts ↔ ts = tokens text.toList := by
  constructor
  · intro h
    rw [← h.written, tokens_written h.grammar]
  · rintro rfl
    obtain ⟨hwritten, hgrammar⟩ := splits_tokens text.toList
    exact ⟨hwritten, hgrammar⟩

/-! What stands in literals. -/

namespace Refilled

theorem head?_written (h : Refilled ts us) : (written us).head? = (written ts).head? := by
  induction h with
  | nil => rfl
  | literal _ _ _ => rfl
  | @same t ts us _ ih => rw [written_cons, written_cons, List.head?_append, List.head?_append, ih]

theorem endsName (h : Refilled ts us) (hend : EndsName (written ts)) : EndsName (written us) := by
  rw [EndsName, h.head?_written]
  exact hend

theorem eq_nil (h : Refilled [] us) : us = [] := by
  cases h
  rfl

/-- A literal can have any content that does not close it, whatever comes after it. -/
theorem grammar (h : Refilled ts us) (hts : Grammar ts) : Grammar us := by
  induction h with
  | nil => exact hts
  | literal hother h ih =>
    cases hts with
    | literal hquote _ hrest =>
      cases hother with
      | literal _ hbody _ => exact .literal hquote hbody (ih hrest)
    | unclosed _ _ =>
      rw [h.eq_nil]
      exact hother
  | same h ih =>
    cases hts with
    | literal hquote hbody hrest => exact .literal hquote hbody (ih hrest)
    | unclosed hquote hbody =>
      rw [h.eq_nil]
      exact .unclosed hquote hbody
    | parameter hne hname hend hrest => exact .parameter hne hname (h.endsName hend) (ih hrest)
    | plain hquote hend hrest =>
      exact .plain hquote (fun hdollar => h.endsName (hend hdollar)) (ih hrest)

theorem filterMap_name? (h : Refilled ts us) :
    us.filterMap Token.name? = ts.filterMap Token.name? := by
  induction h with
  | nil => rfl
  | literal _ _ ih => exact ih
  | same _ ih => rw [List.filterMap_cons, List.filterMap_cons, ih]

end Refilled

theorem names_of_splits (h : Splits text ts) :
    names text = (SortedSet.ofKeys (ts.filterMap Token.name?)).keys := by
  rw [names, splits_iff.1 h]

/-- The names are those of the parameter tokens. -/
theorem mem_names_of_splits (h : Splits text ts) (name : String) :
    name ∈ names text ↔ .parameter name.toList ∈ ts := by
  rw [names_of_splits h, SortedMap.mem_keys, SortedSet.contains_ofKeys, decide_eq_true_eq,
    List.mem_filterMap]
  constructor
  · rintro ⟨t, ht, hname⟩
    cases t with
    | parameter cs =>
      cases hname
      rwa [String.toList_ofList]
    | literal quote body closed => cases hname
    | plain c => cases hname
  · exact fun h => ⟨_, h, congrArg some String.ofList_toList⟩

/-- Of every text there is one sequence of tokens that keeps the grammar. A scan of the text slices
it between characters only, and it gives the names of the parameters among the tokens, in order and
once each. They are the same with any other content in the literals that does not close them. -/
theorem scan_follows_grammar (text : String) :
    (∃! ts, Splits text ts) ∧
    scan text = some (names text) ∧
    (names text).Pairwise (· < ·) ∧
    ∀ ts, Splits text ts →
      (∀ name : String, name ∈ names text ↔ .parameter name.toList ∈ ts) ∧
      ∀ us, Refilled ts us → Splits (.ofList (written us)) us ∧
        scan (.ofList (written us)) = some (names text) := by
  refine ⟨⟨_, splits_iff.2 rfl, fun ts hts => splits_iff.1 hts⟩, scan_eq text, ?_,
    fun ts hts => ⟨mem_names_of_splits hts, fun us hus => ?_⟩⟩
  · exact List.pairwise_map.2 (SortedMap.ascending _)
  · have hsplits : Splits (.ofList (written us)) us :=
      ⟨String.toList_ofList.symm, hus.grammar hts.grammar⟩
    refine ⟨hsplits, ?_⟩
    rw [scan_eq, names_of_splits hsplits, names_of_splits hts, hus.filterMap_name?]

end GraphSync.Placeholder

namespace GraphSync.Sample

open Placeholder

/-- A character of two bytes, a literal with an escaped quote, and two parameters side by side. -/
def pieces (body : List Char) : List Token :=
  [.plain 'é', .literal '\'' body true, .parameter ['b'], .parameter ['a']]

theorem grammar_pieces {body : List Char} (hbody : Inside '\'' body) : Grammar (pieces body) := by
  have hname : ∀ c : Char, isNameChar c = true → ∀ d ∈ [c], IsNameChar d := by
    rintro c hc d hd
    obtain rfl := List.mem_singleton.1 hd
    exact isNameChar_iff.1 hc
  have hlast : Grammar [.parameter ['a']] :=
    .parameter (List.cons_ne_nil _ _) (hname 'a' (by decide)) (endsName_iff.2 rfl) .nil
  have hboth : Grammar [.parameter ['b'], .parameter ['a']] :=
    .parameter (List.cons_ne_nil _ _) (hname 'b' (by decide)) (endsName_iff.2 rfl) hlast
  have hplain : ¬ IsQuote 'é' := fun h => nomatch isQuote_iff.2 h
  exact .plain hplain (fun h => nomatch h) (.literal (.inl rfl) hbody hboth)

end GraphSync.Sample

namespace GraphSync.Placeholder

/-- The dollar sign in the literal asks for nothing, whether a quote or a name comes after it. -/
theorem scan_follows_grammar_of_sample :
    Splits "é'$\\''$b$a" (Sample.pieces ['$', '\\', '\'']) ∧
    scan "é'$\\''$b$a" = some ["a", "b"] ∧ scan "é'$c'$b$a" = some ["a", "b"] := by
  have hescaped : Inside '\'' ['$', '\\', '\''] :=
    .char (by decide) (by decide) (.escaped (by decide) .nil)
  have hother : Inside '\'' ['$', 'c'] :=
    .char (by decide) (by decide) (.char (by decide) (by decide) .nil)
  have hsplits : Splits "é'$\\''$b$a" (Sample.pieces ['$', '\\', '\'']) :=
    ⟨by decide, Sample.grammar_pieces hescaped⟩
  have hrefilled : Refilled (Sample.pieces ['$', '\\', '\'']) (Sample.pieces ['$', 'c']) :=
    .same (.literal (.literal (.inl rfl) hother .nil) (.same (.same .nil)))
  have hnames : names "é'$\\''$b$a" = ["a", "b"] := (names_of_splits hsplits).trans (by decide)
  obtain ⟨-, hscan, -, hall⟩ := scan_follows_grammar "é'$\\''$b$a"
  obtain ⟨-, hother⟩ := (hall _ hsplits).2 _ hrefilled
  rw [hnames] at hscan hother
  exact ⟨hsplits, hscan, hother⟩

end GraphSync.Placeholder
