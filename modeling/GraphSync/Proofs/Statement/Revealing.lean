import GraphSync.Proofs.Statement.References

/-! Texts put together from names and fixed pieces, and what is known once two of them are equal. -/
namespace GraphSync.Placeholder

/-- Whether two texts differ at a place that both of them have. -/
def forks : List Char → List Char → Bool
  | c :: cs, d :: ds => c != d || forks cs ds
  | _, _ => false

def Forks (a b : String) : Prop := forks a.toList b.toList = true

instance (a b : String) : Decidable (Forks a b) := inferInstanceAs (Decidable (_ = true))

/-- All of a text is one name. -/
def NameText (text : String) : Prop := ∀ c ∈ text.toList, isNameChar c = true

instance (text : String) : Decidable (NameText text) :=
  decidable_of_iff (text.toList.all isNameChar = true) List.all_eq_true

/-- A text that does not go on with a name before it. -/
def Closes (text : String) : Prop := text.toList.head?.all (!isNameChar ·) = true

instance (text : String) : Decidable (Closes text) := inferInstanceAs (Decidable (_ = true))

/-- Whatever comes after two texts, unless it goes on with their last names: the whole is the same
only if `p` holds, and then what comes after is the same. -/
def Reveals (a b : String) (p : Prop) : Prop :=
  ∀ rest others : List Char, rest.takeWhile isNameChar = [] → others.takeWhile isNameChar = [] →
    a.toList ++ rest = b.toList ++ others → p ∧ rest = others

/-- Pieces, each behind a separator. -/
def separated (sep : String) : List String → String
  | [] => ""
  | t :: ts => sep ++ (t ++ separated sep ts)

variable {a b x y sep : String} {p q : Prop}

theorem forks_append {cs ds es fs : List Char} (h : forks cs ds = true) :
    forks (cs ++ es) (ds ++ fs) = true := by
  induction cs generalizing ds with
  | nil => simp [forks] at h
  | cons c cs ih =>
    cases ds with
    | nil => simp [forks] at h
    | cons d ds =>
      simp only [List.cons_append, forks, Bool.or_eq_true] at h ⊢
      exact h.imp_right ih

theorem ne_of_forks {cs ds : List Char} (h : forks cs ds = true) : cs ≠ ds := by
  rintro rfl
  induction cs with
  | nil => cases h
  | cons c cs ih => exact ih (by simpa [forks] using h)

theorem Forks.append (h : Forks a b) : Forks (a ++ x) (b ++ y) := by
  rw [Forks, String.toList_append, String.toList_append]
  exact forks_append h

theorem Forks.append_left (h : Forks a b) : Forks (a ++ x) b := by
  rw [← String.append_empty (s := b)]
  exact h.append

theorem Forks.append_right (h : Forks a b) : Forks a (b ++ y) := by
  rw [← String.append_empty (s := a)]
  exact h.append

theorem Breaks.closes (h : Breaks a) : Closes a := by
  cases ha : a.toList with
  | nil => simp [Closes, ha]
  | cons c cs => simpa [Closes, Breaks, ha] using h

theorem Closes.takeWhile {rest : List Char} (h : Closes b)
    (hrest : rest.takeWhile isNameChar = []) :
    (b.toList ++ rest).takeWhile isNameChar = [] := by
  cases hb : b.toList with
  | nil => exact hrest
  | cons c cs => exact hb ▸ Breaks.takeWhile (by simpa [Breaks, Closes, hb] using h) rest

theorem Closes.append (ha : Closes a) (hb : Closes b) : Closes (a ++ b) := by
  cases h : a.toList with
  | nil => simpa [Closes, String.toList_append, h] using hb
  | cons c cs => simpa [Closes, String.toList_append, h] using ha

theorem closes_separated (hsep : Breaks sep) (ts : List String) : Closes (separated sep ts) := by
  cases ts with
  | nil => rfl
  | cons t ts => exact hsep.append.closes

theorem intercalate_cons (sep t : String) (ts : List String) :
    sep.intercalate (t :: ts) = t ++ separated sep ts := by
  induction ts generalizing t with
  | nil => rw [String.intercalate_singleton, separated, String.append_empty]
  | cons u us ih => rw [String.intercalate_cons_cons, ih, separated, String.append_assoc]

theorem nameText_of_isIdentifier (h : isIdentifier a = true) : NameText a :=
  (isNameChar_of_isIdentifier h).2

namespace Reveals

theorem of_eq (h : Reveals a b p) (heq : a = b) : p := (h [] [] rfl rfl (by rw [heq])).1

theorem mono (h : Reveals a b p) (hp : p → q) : Reveals a b q := fun rest others hr ho heq =>
  (h rest others hr ho heq).imp_left hp

theorem symm (h : Reveals a b p) : Reveals b a p := fun rest others hr ho heq =>
  (h others rest ho hr heq.symm).imp_right Eq.symm

theorem refl (a : String) : Reveals a a True := fun _ _ _ _ heq =>
  ⟨trivial, List.append_cancel_left heq⟩

theorem of_forks (h : Forks a b) : Reveals a b p := fun _ _ _ _ heq =>
  absurd heq (ne_of_forks (forks_append h))

/-- A name ends where what comes after it begins. -/
theorem name (ha : NameText a) (hb : NameText b) : Reveals a b (a = b) := by
  intro rest others hrest hothers heq
  have htake := congrArg (List.takeWhile isNameChar) heq
  rw [List.takeWhile_append_of_pos ha, List.takeWhile_append_of_pos hb, hrest, hothers,
    List.append_nil, List.append_nil] at htake
  rw [htake] at heq
  exact ⟨String.toList_inj.1 htake, List.append_cancel_left heq⟩

theorem prepend_iff (s : String) : Reveals (s ++ a) (s ++ b) p ↔ Reveals a b p := by
  simp only [Reveals, String.toList_append, List.append_assoc, List.append_cancel_left_eq]

theorem prepend (s : String) (h : Reveals a b p) : Reveals (s ++ a) (s ++ b) p :=
  (prepend_iff s).2 h

/-- Texts one after the other, if the second ones do not go on with the names of the first. -/
theorem append (h : Reveals a b p) (hrest : p → Reveals x y q) (hx : Closes x) (hy : Closes y) :
    Reveals (a ++ x) (b ++ y) (p ∧ q) := by
  intro rest others hr ho heq
  rw [String.toList_append, String.toList_append, List.append_assoc, List.append_assoc] at heq
  obtain ⟨hp, htail⟩ := h _ _ (hx.takeWhile hr) (hy.takeWhile ho) heq
  obtain ⟨hq, hend⟩ := hrest hp rest others hr ho htail
  exact ⟨⟨hp, hq⟩, hend⟩

theorem append_same (h : Reveals a b p) (hx : Closes x) : Reveals (a ++ x) (b ++ x) p :=
  (h.append (fun _ => refl x) hx hx).mono And.left

/-- Texts with a fixed text between them, at which names end. -/
theorem between (h : Reveals a b p) {mid : String} (hmid : Breaks mid)
    (hrest : p → Reveals x y q) : Reveals (a ++ (mid ++ x)) (b ++ (mid ++ y)) (p ∧ q) :=
  h.append (fun hp => (hrest hp).prepend mid) hmid.append.closes hmid.append.closes

/-- Texts that are told apart by what ends the names of the first ones. -/
theorem then_forks (h : Reveals a b p) {c d : String} (hforks : Forks c d) (hc : Breaks c)
    (hd : Breaks d) : Reveals (a ++ (c ++ x)) (b ++ (d ++ y)) q :=
  (h.append (fun _ => of_forks hforks.append) hc.append.closes hd.append.closes).mono And.right

section Lines

variable {ls ms : List String}

theorem line (hsep : Breaks sep) (h : Reveals a b p)
    (hrest : p → Reveals (separated sep ls) (separated sep ms) q) :
    Reveals (separated sep (a :: ls)) (separated sep (b :: ms)) (p ∧ q) :=
  prepend sep (h.append hrest (closes_separated hsep ls) (closes_separated hsep ms))

theorem same_line (h : Reveals (separated sep ls) (separated sep ms) q) :
    Reveals (separated sep (a :: ls)) (separated sep (a :: ms)) q :=
  prepend sep (prepend a h)

theorem of_forks_line (h : Forks a b) :
    Reveals (separated sep (a :: ls)) (separated sep (b :: ms)) q :=
  prepend sep (of_forks h.append)

end Lines

section Pieces

variable {α β : Type} {write : α → String} {key : α → β} {us vs : List α}

/-- Pieces behind separators, up to something that is told apart from a separator. -/
theorem pieces (hsep : Breaks sep) (hcx : Closes x) (hcy : Closes y) (hx : Forks sep x)
    (hy : Forks sep y) (hpieces : ∀ u ∈ us, ∀ v ∈ vs, Reveals (write u) (write v) (key u = key v))
    (hrest : us.map key = vs.map key → Reveals x y q) :
    Reveals (separated sep (us.map write) ++ x) (separated sep (vs.map write) ++ y)
      (us.map key = vs.map key ∧ q) := by
  induction us generalizing vs with
  | nil =>
    cases vs with
    | nil =>
      rw [List.map_nil, separated, String.empty_append, String.empty_append]
      exact (hrest rfl).mono fun hq => ⟨rfl, hq⟩
    | cons v vs =>
      rw [List.map_cons, separated, String.append_assoc]
      exact (of_forks hx.append_left).symm
  | cons u us ih =>
    cases vs with
    | nil =>
      rw [List.map_cons, separated, String.append_assoc]
      exact of_forks hy.append_left
    | cons v vs =>
      have hfirst := hpieces u List.mem_cons_self v List.mem_cons_self
      have hothers : key u = key v → Reveals (separated sep (us.map write) ++ x)
          (separated sep (vs.map write) ++ y) (us.map key = vs.map key ∧ q) :=
        fun hk => ih (fun u hu v hv =>
          hpieces u (List.mem_cons_of_mem _ hu) v (List.mem_cons_of_mem _ hv))
          fun hmap => hrest (by rw [List.map_cons, List.map_cons, hk, hmap])
      simp only [List.map_cons, separated, String.append_assoc]
      refine (prepend sep (hfirst.append hothers ((closes_separated hsep _).append hcx)
        ((closes_separated hsep _).append hcy))).mono ?_
      rintro ⟨hk, hmap, hq⟩
      exact ⟨by rw [hk, hmap], hq⟩

/-- Pieces between separators, up to something that is told apart from a separator. -/
theorem intercalate (hsep : Breaks sep) (hcx : Closes x) (hcy : Closes y) (hx : Forks sep x)
    (hy : Forks sep y) (hus : us ≠ []) (hvs : vs ≠ [])
    (hpieces : ∀ u ∈ us, ∀ v ∈ vs, Reveals (write u) (write v) (key u = key v))
    (hrest : us.map key = vs.map key → Reveals x y q) :
    Reveals (sep.intercalate (us.map write) ++ x) (sep.intercalate (vs.map write) ++ y)
      (us.map key = vs.map key ∧ q) := by
  obtain ⟨u, us, rfl⟩ := List.exists_cons_of_ne_nil hus
  obtain ⟨v, vs, rfl⟩ := List.exists_cons_of_ne_nil hvs
  refine (prepend_iff sep).1 ?_
  have hall : Reveals (separated sep ((u :: us).map write) ++ x)
      (separated sep ((v :: vs).map write) ++ y) ((u :: us).map key = (v :: vs).map key ∧ q) :=
    pieces hsep hcx hcy hx hy hpieces hrest
  simpa only [List.map_cons, separated, intercalate_cons, String.append_assoc] using hall

end Pieces

end Reveals

end GraphSync.Placeholder
