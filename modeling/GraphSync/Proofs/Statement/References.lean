import GraphSync.Statement.Bound

/-! The names that a text refers to, read off the pieces it is put together from. -/
namespace GraphSync

namespace Placeholder

/-- The names that characters refer to, in the order in which they stand. -/
def referred (cs : List Char) : List String := (tokens cs).filterMap Token.name?

/-- A character that opens no literal and no reference. -/
def isPlain (c : Char) : Bool := !isQuote c && c != '$'

/-- A text without literals and references. -/
def PlainText (text : String) : Prop := ∀ c ∈ text.toList, isPlain c = true

instance (text : String) : Decidable (PlainText text) :=
  decidable_of_iff (text.toList.all isPlain = true) List.all_eq_true

/-- A text that starts with a character at which every name before it ends. -/
def Breaks (text : String) : Prop := text.toList.head?.any (!isNameChar ·) = true

instance (text : String) : Decidable (Breaks text) := inferInstanceAs (Decidable (_ = true))

/-- A text refers to names, whatever comes after it, unless it goes on with its last name. -/
def Refers (text : String) (names : List String) : Prop :=
  ∀ rest, rest.takeWhile isNameChar = [] →
    referred (text.toList ++ rest) = names ++ referred rest

/-- Texts that refer to names, one after the other. -/
inductive ReferAll : List String → List String → Prop
  | nil : ReferAll [] []
  | cons {text : String} {texts ns ms : List String} (h : Refers text ns)
      (hrest : ReferAll texts ms) : ReferAll (text :: texts) (ns ++ ms)

variable {a b sep text name : String} {texts others ns ms : List String} {cs rest : List Char}
  {c : Char}

theorem referred_plain_append (h : ∀ c ∈ cs, isPlain c = true) :
    referred (cs ++ rest) = referred rest := by
  induction cs with
  | nil => rfl
  | cons c cs ih =>
    obtain ⟨hc, hrest⟩ := List.forall_mem_cons.1 h
    simp only [isPlain, Bool.and_eq_true, Bool.not_eq_true', bne_iff_ne] at hc
    rw [List.cons_append, referred, tokens, if_neg (by simp [hc.1]), if_neg hc.2]
    exact ih hrest

theorem PlainText.append (ha : PlainText a) (hb : PlainText b) : PlainText (a ++ b) := by
  intro c hc
  rw [String.toList_append] at hc
  exact (List.mem_append.1 hc).elim (ha c) (hb c)

theorem PlainText.refers (h : PlainText a) : Refers a [] := fun _ _ => referred_plain_append h

theorem PlainText.append_refers (ha : PlainText a) (hb : Refers b ns) : Refers (a ++ b) ns := by
  intro rest hrest
  rw [String.toList_append, List.append_assoc, referred_plain_append ha, hb rest hrest]

theorem Breaks.append (h : Breaks a) : Breaks (a ++ b) := by
  rw [Breaks, String.toList_append]
  cases ha : a.toList with
  | nil => simp [Breaks, ha] at h
  | cons c cs => simpa [Breaks, ha] using h

theorem Breaks.takeWhile (h : Breaks b) (rest : List Char) :
    (b.toList ++ rest).takeWhile isNameChar = [] := by
  cases hb : b.toList with
  | nil => simp [Breaks, hb] at h
  | cons c cs =>
    have hc : isNameChar c = false := by simpa [Breaks, hb] using h
    rw [List.cons_append, List.takeWhile_cons_of_neg (by simp [hc])]

/-- Texts one after the other, if the second ends the names of the first. -/
theorem Refers.append (ha : Refers a ns) (hb : Refers b ms) (h : Breaks b) :
    Refers (a ++ b) (ns ++ ms) := by
  intro rest hrest
  rw [String.toList_append, List.append_assoc, ha _ (h.takeWhile rest), hb rest hrest,
    List.append_assoc]

theorem Refers.append_plain (ha : Refers a ns) (hb : PlainText b) (h : Breaks b) :
    Refers (a ++ b) ns := by
  have happend := ha.append hb.refers h
  rwa [List.append_nil] at happend

theorem isPlain_of_isNameChar (h : isNameChar c = true) : isPlain c = true := by
  have hne : ∀ d : Char, isNameChar d = false → c ≠ d := by
    rintro d hd rfl
    exact Bool.false_ne_true (hd.symm.trans h)
  simp [isPlain, isQuote, hne _ (show isNameChar '$' = false by decide),
    hne _ (show isNameChar '\'' = false by decide), hne _ (show isNameChar '"' = false by decide),
    hne _ (show isNameChar '\x60' = false by decide)]

/-- An identifier is a name: it is not empty, and nothing in it ends a name. -/
theorem isNameChar_of_isIdentifier (h : isIdentifier name = true) :
    name.toList ≠ [] ∧ ∀ c ∈ name.toList, isNameChar c = true := by
  rw [isIdentifier] at h
  split at h
  · cases h
  · next first rest hs =>
    simp only [Bool.and_eq_true, List.all_eq_true] at h
    rw [hs]
    refine ⟨List.cons_ne_nil _ _, List.forall_mem_cons.2 ⟨?_, fun c hc => h.2 c hc⟩⟩
    have hfirst := h.1
    simp only [isNameChar, Bool.or_eq_true, Char.isAlphanum] at hfirst ⊢
    exact hfirst.imp_left .inl

theorem plainText_of_isIdentifier (h : isIdentifier name = true) : PlainText name :=
  fun c hc => isPlain_of_isNameChar ((isNameChar_of_isIdentifier h).2 c hc)

/-- A dollar sign makes a reference of an identifier. -/
theorem refers_dollar (h : isIdentifier name = true) : Refers ("$" ++ name) [name] := by
  intro rest hrest
  obtain ⟨hne, hall⟩ := isNameChar_of_isIdentifier h
  have htake : (name.toList ++ rest).takeWhile isNameChar = name.toList := by
    rw [List.takeWhile_append_of_pos hall, hrest, List.append_nil]
  have hdrop : (name.toList ++ rest).dropWhile isNameChar = rest := by
    rw [List.dropWhile_append_of_pos hall]
    cases rest with
    | nil => rfl
    | cons c cs =>
      have hc : isNameChar c = false := by simpa [List.takeWhile_cons] using hrest
      rw [List.dropWhile_cons_of_neg (by simp [hc])]
  have htext : ("$" ++ name).toList ++ rest = '$' :: (name.toList ++ rest) := by
    rw [String.toList_append]
    rfl
  rw [htext, referred, tokens, if_neg (by decide), if_pos rfl, htake, hdrop]
  cases hname : name.toList with
  | nil => exact absurd hname hne
  | cons c cs =>
    rw [List.filterMap_cons, Token.name?, ← hname, String.ofList_toList]
    rfl

theorem ReferAll.singleton (h : Refers text ns) : ReferAll [text] ns := by
  have hone := ReferAll.cons h .nil
  rwa [List.append_nil] at hone

theorem ReferAll.append (h : ReferAll texts ns) (hothers : ReferAll others ms) :
    ReferAll (texts ++ others) (ns ++ ms) := by
  induction h with
  | nil => exact hothers
  | cons hfirst _ ih =>
    rw [List.append_assoc]
    exact .cons hfirst ih

theorem referAll_map {α : Type} {xs : List α} {write : α → String} {names : α → List String}
    (h : ∀ x ∈ xs, Refers (write x) (names x)) : ReferAll (xs.map write) (xs.flatMap names) := by
  induction xs with
  | nil => exact .nil
  | cons x xs ih =>
    obtain ⟨hx, hrest⟩ := List.forall_mem_cons.1 h
    exact .cons hx (ih hrest)

/-- A separator that ends names keeps the texts apart. -/
theorem ReferAll.intercalate (hsep : PlainText sep) (hbreaks : Breaks sep)
    (h : ReferAll texts ns) : Refers (sep.intercalate texts) ns := by
  have hjoin : ∀ {texts ms}, ReferAll texts ms → ∀ {a ns}, Refers a ns →
      Refers (sep.intercalate (a :: texts)) (ns ++ ms) := by
    intro texts ms htexts
    induction htexts with
    | nil =>
      intro a ns ha
      rwa [List.append_nil]
    | cons hb _ ih =>
      intro a ns ha
      have hfirst := ha.append (hsep.append_refers hb) hbreaks.append
      rw [← String.append_assoc] at hfirst
      rw [← List.append_assoc]
      exact ih hfirst
  cases h with
  | nil => exact fun _ _ => rfl
  | cons ha hrest => exact hjoin hrest ha

theorem mem_names : name ∈ names text ↔ name ∈ referred text.toList := by
  rw [names, SortedMap.mem_keys, SortedSet.contains_ofKeys, decide_eq_true_eq, referred]

theorem Refers.referred_eq (h : Refers text ns) : referred text.toList = ns := by
  have hall := h [] rfl
  have hnil : referred [] = [] := by simp [referred, tokens]
  rwa [List.append_nil, hnil, List.append_nil] at hall

/-- The names of a text are those of its pieces, each once. -/
theorem Refers.names_eq (h : Refers text ns) : names text = (SortedSet.ofKeys ns).keys := by
  rw [names, ← h.referred_eq, referred]

theorem Refers.mem_names (h : Refers text ns) : name ∈ names text ↔ name ∈ ns := by
  rw [Placeholder.mem_names, h.referred_eq]

end Placeholder

end GraphSync
