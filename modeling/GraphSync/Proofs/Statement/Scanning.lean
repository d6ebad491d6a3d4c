import Mathlib.Data.List.TakeWhile
import GraphSync.Statement.Scan
import GraphSync.Proofs.Statement.References

/-! The scan by bytes finds the names of the tokens. It slices only where characters start. -/
namespace GraphSync.Placeholder

variable {text before after : String} {cs rest : List Char} {quote c : Char}
  {names : SortedSet String}

/-! Slices between whole texts. -/

/-- The first byte behind a text is one that a character starts at, or the end. -/
theorem pos?_append (before after : String) : ∃ p : (before ++ after).Pos,
    (before ++ after).pos? ⟨before.utf8ByteSize⟩ = some p ∧ p.Splits before after := by
  have hvalid : String.Pos.Raw.IsValid (before ++ after) ⟨before.utf8ByteSize⟩ :=
    String.Pos.Raw.isValid_iff_exists_append.2 ⟨before, after, rfl, rfl⟩
  refine ⟨(before ++ after).pos _ hvalid, ?_, rfl, String.offset_pos⟩
  rw [String.pos?, String.Slice.pos?,
    dif_pos (String.Pos.Raw.isValidForSlice_eq_true_iff.2 hvalid.toSlice)]
  rfl

theorem sliceFrom?_append (before after : String) :
    sliceFrom? (before ++ after) before.utf8ByteSize = some after := by
  obtain ⟨p, hp, hsplits⟩ := pos?_append before after
  rw [sliceFrom?, hp, Option.map_some, String.copy_sliceFrom_eq_iff_exists_splits.2 ⟨_, hsplits⟩]

theorem sliceTo?_append (before after : String) :
    sliceTo? (before ++ after) before.utf8ByteSize = some before := by
  obtain ⟨p, hp, hsplits⟩ := pos?_append before after
  rw [sliceTo?, hp, Option.map_some, String.copy_sliceTo_eq_iff_exists_splits.2 ⟨_, hsplits⟩]

/-- A name ends behind its bytes. -/
theorem nameEnd_eq (cs : List Char) : nameEnd (.ofList cs) =
    (String.ofList (cs.takeWhile isNameChar)).utf8ByteSize := by
  rw [nameEnd]
  split
  · next p hp =>
    obtain ⟨name, c, rest, hsplits, hc, hname⟩ := String.find?_bool_eq_some_iff_splits.1 hp
    have hcs : cs = name.toList ++ c :: rest.toList := by
      simpa using congrArg String.toList hsplits.eq_append
    have hall : ∀ d ∈ name.toList, isNameChar d = true := fun d hd => by simpa using hname d hd
    have htake : cs.takeWhile isNameChar = name.toList := by
      rw [hcs, List.takeWhile_append_of_pos hall, List.takeWhile_cons_of_neg (by simpa using hc),
        List.append_nil]
    rw [htake, String.ofList_toList, hsplits.offset_eq_rawEndPos]
    rfl
  · next hnone =>
    have hall : ∀ c ∈ cs, isNameChar c = true := by
      simpa [String.find?_eq_find?_toSlice, String.Slice.contains_bool_eq] using hnone
    rw [List.takeWhile_eq_self_iff.2 hall]

theorem utf8ByteSize_cons (c : Char) (cs : List Char) :
    (String.ofList (c :: cs)).utf8ByteSize = c.utf8Size + (String.ofList cs).utf8ByteSize := by
  have hcons : String.ofList (c :: cs) = String.singleton c ++ String.ofList cs := by
    rw [← String.toList_inj]
    simp
  rw [hcons, String.utf8ByteSize_append, String.utf8ByteSize_singleton]

/-- What is left behind a literal, and the byte at which it starts. -/
theorem exists_skipLiteral (hquote : isQuote quote = true) (byte : Nat) (cs : List Char) : ∃ read,
    cs = read ++ (readLiteral quote cs).2.2 ∧
      skipLiteral quote (indexed byte cs) =
        indexed (byte + (String.ofList read).utf8ByteSize) (readLiteral quote cs).2.2 := by
  have hescape : escapes quote quote = false := by
    rw [escapes, Bool.and_eq_false_imp]
    intro hslash
    rw [beq_iff_eq.1 hslash] at hquote
    cases hquote
  fun_induction readLiteral quote cs generalizing byte with
  | case1 => exact ⟨[], rfl, rfl⟩
  | case2 => exact ⟨[quote], rfl, rfl⟩
  | case3 c hc => exact ⟨[c], rfl, rfl⟩
  | case4 d rest =>
    refine ⟨[quote], rfl, ?_⟩
    rw [indexed, indexed, skipLiteral, hescape, if_neg Bool.false_ne_true, if_pos rfl,
      utf8ByteSize_cons]
    rfl
  | case5 c d rest hc hslash body closed after hread ih =>
    obtain ⟨read, hrest, hskip⟩ := ih (byte + c.utf8Size + d.utf8Size)
    rw [hread] at hrest hskip
    refine ⟨c :: d :: read, congrArg (c :: d :: ·) hrest, ?_⟩
    rw [indexed, indexed, skipLiteral, if_pos hslash, hskip, utf8ByteSize_cons, utf8ByteSize_cons,
      Nat.add_assoc, Nat.add_assoc]
  | case6 c d rest hc hslash body closed after hread ih =>
    obtain ⟨read, hrest, hskip⟩ := ih (byte + c.utf8Size)
    rw [hread] at hrest hskip
    refine ⟨c :: read, congrArg (c :: ·) hrest, ?_⟩
    rw [indexed] at hskip
    rw [indexed, indexed, skipLiteral, if_neg hslash, if_neg hc, hskip, utf8ByteSize_cons,
      Nat.add_assoc]

/-! What a text refers to from its first character on. -/

theorem referred_quote (hquote : isQuote quote = true) :
    referred (quote :: rest) = referred (readLiteral quote rest).2.2 := by
  rw [referred, tokens, if_pos hquote]
  rfl

theorem referred_plain (hquote : ¬ isQuote c = true) (hdollar : c ≠ '$') :
    referred (c :: rest) = referred rest := by
  rw [referred, tokens, if_neg hquote, if_neg hdollar]
  rfl

/-- A name is plain text by itself, so it may be read again. -/
theorem referred_dollar : referred ('$' :: rest) =
    if rest.takeWhile isNameChar = [] then referred rest
    else String.ofList (rest.takeWhile isNameChar) :: referred rest := by
  have hplain : ∀ c ∈ rest.takeWhile isNameChar, isPlain c = true := fun c hc =>
    isPlain_of_isNameChar (List.mem_takeWhile_imp hc)
  have hagain : referred (rest.dropWhile isNameChar) = referred rest := by
    rw [← referred_plain_append hplain, List.takeWhile_append_dropWhile]
  rw [referred, tokens, if_neg (by decide), if_pos rfl]
  split
  · next hname =>
    rw [if_pos hname]
    rfl
  · next d name hname =>
    rw [if_neg (by simp [hname]), hname, ← hagain]
    rfl

/-- Behind a dollar sign the name is cut out of the text, wherever the sign stands. -/
theorem slices_dollar (htext : text = before ++ .ofList ('$' :: rest)) :
    sliceFrom? text (before.utf8ByteSize + 1) = some (.ofList rest) ∧
    sliceTo? (.ofList rest) (nameEnd (.ofList rest)) =
      some (.ofList (rest.takeWhile isNameChar)) ∧
    (nameEnd (.ofList rest) = 0 ↔ rest.takeWhile isNameChar = []) := by
  have hsplit : String.ofList (rest.takeWhile isNameChar) ++
      String.ofList (rest.dropWhile isNameChar) = .ofList rest := by
    rw [← String.ofList_append, List.takeWhile_append_dropWhile]
  refine ⟨?_, ?_, ?_⟩
  · have hslice := sliceFrom?_append (before ++ .ofList ['$']) (.ofList rest)
    rw [String.append_assoc, ← String.ofList_append, String.utf8ByteSize_append] at hslice
    rw [htext]
    exact hslice
  · have hslice := sliceTo?_append (.ofList (rest.takeWhile isNameChar))
      (.ofList (rest.dropWhile isNameChar))
    rwa [hsplit, ← nameEnd_eq] at hslice
  · rw [nameEnd_eq, String.utf8ByteSize_eq_zero_iff, ← String.toList_inj]
    simp

/-- The scan goes on from any place between characters and adds the names that it finds there. -/
theorem scanFrom_indexed (before : String) (cs : List Char) (names : SortedSet String)
    (htext : text = before ++ .ofList cs) :
    scanFrom text (indexed before.utf8ByteSize cs) names =
      some (SortedSet.addAll names (referred cs)) := by
  match cs with
  | [] => simp [indexed, scanFrom, referred, tokens, SortedSet.addAll]
  | c :: rest =>
    -- the same for what is left behind this character, and more generally behind some characters
    have hgo : ∀ read after names, c :: rest = read ++ after → after.length ≤ rest.length →
        scanFrom text (indexed (before.utf8ByteSize + (String.ofList read).utf8ByteSize) after)
          names = some (SortedSet.addAll names (referred after)) := by
      intro read after names hread hlength
      rw [← String.utf8ByteSize_append]
      refine scanFrom_indexed (before ++ .ofList read) after names ?_
      rw [htext, hread, String.ofList_append, String.append_assoc]
    have hnext : ∀ names, scanFrom text (indexed (before.utf8ByteSize + c.utf8Size) rest) names =
        some (SortedSet.addAll names (referred rest)) := by
      intro names
      have hone := hgo [c] rest names rfl (Nat.le_refl _)
      rwa [utf8ByteSize_cons] at hone
    rw [indexed, scanFrom]
    by_cases hquote : isQuote c = true
    · obtain ⟨read, hrest, hskip⟩ :=
        exists_skipLiteral hquote (before.utf8ByteSize + c.utf8Size) rest
      have hbehind := hgo (c :: read) _ names (congrArg (c :: ·) hrest)
        (length_readLiteral_le c rest)
      rw [utf8ByteSize_cons, ← Nat.add_assoc] at hbehind
      rw [if_pos hquote, hskip, hbehind, referred_quote hquote]
    · rw [if_neg hquote]
      by_cases hdollar : c = '$'
      · subst hdollar
        obtain ⟨hfrom, hto, hempty⟩ := slices_dollar htext
        rw [if_pos rfl, hfrom, Option.bind_eq_bind, Option.bind_some, referred_dollar]
        by_cases hname : rest.takeWhile isNameChar = []
        · rw [if_pos (hempty.2 hname), if_pos hname, hnext]
        · rw [if_neg (hempty.not.2 hname), if_neg hname, hto]
          exact hnext _
      · rw [if_neg hdollar, referred_plain hquote hdollar, hnext]
termination_by cs.length
decreasing_by exact Nat.lt_succ_of_le hlength

/-- The scan slices between characters only, and gives the names of the tokens. -/
theorem scan_eq (text : String) : scan text = some (Placeholder.names text) := by
  have htext : text = "" ++ .ofList text.toList := by simp
  have hscan := scanFrom_indexed "" text.toList .empty htext
  rw [String.utf8ByteSize_empty] at hscan
  rw [scan, hscan]
  rfl

end GraphSync.Placeholder
