import Criteria.Json.Value.Lemmas
import Mathlib.Data.List.Forall2

namespace Criteria.Json
open Reader

def Gap (g : List Char) : Prop := ∀ c ∈ g, isSpace c = true

instance (g : List Char) : Decidable (Gap g) := List.decidableBAll _ g

theorem gap_nil : Gap [] := by simp [Gap]

theorem Gap.skipSpace_append {g : List Char} (gap : Gap g) (s : List Char) :
    skipSpace (g ++ s) = skipSpace s := List.dropWhile_append_of_pos gap

theorem Gap.skipSpace_cons {g : List Char} (gap : Gap g) {c : Char} (space : isSpace c = false) (s : List Char) :
    skipSpace (g ++ c :: s) = c :: s := by
  rw [gap.skipSpace_append]
  exact Reader.skipSpace_cons space s

-- A number that stands before `r` is over.
def Ends (r : List Char) : Prop := ∀ c ∈ r.head?, c.isDigit = false ∧ c ≠ '.' ∧ c ≠ 'e' ∧ c ≠ 'E'

theorem ends_nil : Ends [] := by simp [Ends]

theorem ends_cons {c : Char} (h : c.isDigit = false ∧ c ≠ '.' ∧ c ≠ 'e' ∧ c ≠ 'E') (r : List Char) :
    Ends (c :: r) := by
  simpa [Ends] using h

theorem Gap.ends_append {g r : List Char} (gap : Gap g) (ends : Ends r) : Ends (g ++ r) := by
  cases g with
  | nil => exact ends
  | cons c g =>
    have space : isSpace c = true := gap c (by simp)
    refine ends_cons ?_ _
    simp only [isSpace, Bool.or_eq_true, beq_iff_eq] at space
    obtain ((rfl | rfl) | rfl) | rfl := space <;> decide

section Strings

def FourDigits (ds : List Char) (n : Nat) : Prop :=
  ∃ a b c d i j k l, ds = [a, b, c, d] ∧ Text.hexValue? a = some i ∧ Text.hexValue? b = some j ∧
    Text.hexValue? c = some k ∧ Text.hexValue? d = some l ∧ n = ((i * 16 + j) * 16 + k) * 16 + l

-- Behind the letter u: the number of a character, or the two halves of a surrogate pair.
inductive CodeText : List Char → Char → Prop where
  | single {ds : List Char} {n : Nat} : FourDigits ds n → isTrailing n = false → isLeading n = false →
      CodeText ds (.ofNat n)
  | pair {ds es : List Char} {m n : Nat} : FourDigits ds m → FourDigits es n → isLeading m = true →
      isTrailing n = true → CodeText (ds ++ '\\' :: 'u' :: es) (joinPair m n)

-- One character of a string, where `code` holds of what may stand behind the letter u.
inductive PieceText (code : List Char → Char → Prop) : List Char → Char → Prop where
  | plain {c : Char} : c ≠ '"' → c ≠ '\\' → ¬ c.toNat < 0x20 → PieceText code [c] c
  | named {e c : Char} : named? e = some c → PieceText code ['\\', e] c
  | numbered {ds : List Char} {c : Char} : code ds c → PieceText code ('\\' :: 'u' :: ds) c

inductive BodyText (code : List Char → Char → Prop) : List Char → List Char → Prop where
  | done : BodyText code ['"'] []
  | next {p t cs : List Char} {c : Char} : PieceText code p c → BodyText code t cs → BodyText code (p ++ t) (c :: cs)

def StringText (t : List Char) (s : String) : Prop := ∃ b, t = '"' :: b ∧ BodyText CodeText b s.toList

theorem FourDigits.reads {ds : List Char} {n : Nat} (digits : FourDigits ds n) (r : List Char) :
    Reads fourDigits (ds ++ r) n r := by
  obtain ⟨a, b, c, d, i, j, k, l, rfl, ha, hb, hc, hd, rfl⟩ := digits
  exact reads_fourDigits r ha hb hc hd

theorem reads_trailing {es : List Char} {m n : Nat} (digits : FourDigits es n) (trail : isTrailing n = true)
    (r : List Char) : Reads (trailing m) ('\\' :: 'u' :: (es ++ r)) (joinPair m n) r := by
  refine reads_andThen.mpr ⟨(), _, reads_char.mpr rfl, reads_andThen.mpr ⟨(), _, reads_char.mpr rfl, ?_⟩⟩
  exact reads_check.mpr ⟨n, digits.reads r, by simp [trail]⟩

theorem reads_pair {s m r : List Char} {n : Nat} {c : Char} (lead : isLeading n = true)
    (first : Reads fourDigits s n m) (second : Reads (trailing n) m c r) : Reads numbered s c r := by
  obtain ⟨_, first⟩ := first
  obtain ⟨_, second⟩ := second
  have notTrailing : isTrailing n = false := by
    simp only [isLeading, isTrailing, Bool.and_eq_true, decide_eq_true_eq, Bool.and_eq_false_iff,
      decide_eq_false_iff_not] at lead ⊢
    omega
  exact ⟨by omega, by simp [numbered, first, notTrailing, lead, second, Rest.trans]⟩

theorem CodeText.reads {ds : List Char} {c : Char} (code : CodeText ds c) (r : List Char) :
    Reads numbered (ds ++ r) c r := by
  cases code with
  | single digits trail lead => exact reads_numbered (digits.reads r) trail lead
  | pair digits others lead trail =>
    rw [List.append_assoc]
    exact reads_pair lead (digits.reads _) (reads_trailing others trail r)

variable {code : List Char → Char → Prop} {coded : Reader Char}

theorem PieceText.reads {p : List Char} {c : Char} (piece : PieceText code p c)
    (readsCode : ∀ ds c r, code ds c → Reads coded (ds ++ r) c r) (r : List Char) :
    Reads (Reader.piece coded) (p ++ r) c r := by
  cases piece with
  | plain _ slash printable => exact reads_plain coded r slash printable
  | named known => exact reads_named coded r known
  | numbered known => exact reads_code (readsCode _ _ r known)

theorem PieceText.begins {p : List Char} {c : Char} (piece : PieceText code p c) : ∃ d t, p = d :: t ∧ d ≠ '"' := by
  cases piece with
  | plain quote => exact ⟨_, _, rfl, quote⟩
  | named => exact ⟨_, _, rfl, by decide⟩
  | numbered => exact ⟨_, _, rfl, by decide⟩

theorem BodyText.reads {b cs : List Char} (body : BodyText code b cs)
    (readsCode : ∀ ds c r, code ds c → Reads coded (ds ++ r) c r) (r : List Char) :
    Reads (Reader.body coded) (b ++ r) cs r := by
  induction body with
  | done => exact reads_body_end coded r
  | next piece _ ih =>
    rw [List.append_assoc]
    obtain ⟨d, t, whole, quote⟩ := piece.begins
    exact reads_body_cons ⟨d, _, by rw [whole, List.cons_append], quote⟩ (piece.reads readsCode _) ih

theorem StringText.reads {t : List Char} {s : String} (spelled : StringText t s) (r : List Char) :
    Reads Reader.string (t ++ r) s r := by
  obtain ⟨b, rfl, body⟩ := spelled
  refine reads_andThen.mpr ⟨(), b ++ r, reads_char.mpr rfl, reads_map.mpr ⟨s.toList, ?_, by simp⟩⟩
  exact body.reads (fun _ _ r code => code.reads r) r

theorem StringText.begins {t : List Char} {s : String} (spelled : StringText t s) : ∃ b, t = '"' :: b := by
  obtain ⟨b, rfl, _⟩ := spelled
  exact ⟨b, rfl⟩

theorem pieceText_writeChar (c : Char) : PieceText CodeText (writeChar c) c := by
  unfold writeChar
  split
  · subst_vars; exact .named rfl
  split
  · subst_vars; exact .named rfl
  split
  · subst_vars; exact .named rfl
  split
  · subst_vars; exact .named rfl
  split
  · subst_vars; exact .named rfl
  split
  · subst_vars; exact .named rfl
  split
  · subst_vars; exact .named rfl
  split
  · have digits : FourDigits ['0', '0', Text.lowerHex (c.toNat / 16), Text.lowerHex (c.toNat % 16)] c.toNat :=
      ⟨_, _, _, _, 0, 0, c.toNat / 16, c.toNat % 16, rfl, rfl, rfl, Text.hexValue?_lowerHex _ (by omega),
        Text.hexValue?_lowerHex _ (by omega), by omega⟩
    have code := CodeText.single digits (by simp [isTrailing]; omega) (by simp [isLeading]; omega)
    rw [Char.ofNat_toNat] at code
    exact .numbered code
  · exact .plain ‹_› ‹_› ‹_›

theorem bodyText_write (cs : List Char) : BodyText CodeText (cs.flatMap writeChar ++ ['"']) cs := by
  induction cs with
  | nil => exact .done
  | cons c cs ih =>
    rw [List.flatMap_cons, List.append_assoc]
    exact .next (pieceText_writeChar c) ih

theorem stringText_writeString (s : String) : StringText (writeString s) s := ⟨_, rfl, bodyText_write s.toList⟩

end Strings

section Lists

inductive Followed (close : Char) : List (List Char) → List Char → Prop where
  | stop {g : List Char} : Gap g → Followed close [] (g ++ [close])
  | more {g g' e t : List Char} {es : List (List Char)} : Gap g → Gap g' → Followed close es t →
      Followed close (e :: es) (g ++ ',' :: (g' ++ (e ++ t)))

inductive Enclosed (close : Char) : List (List Char) → List Char → Prop where
  | empty {g : List Char} : Gap g → Enclosed close [] (g ++ [close])
  | some {g e t : List Char} {es : List (List Char)} : Gap g → Followed close es t →
      Enclosed close (e :: es) (g ++ (e ++ t))

def MemberText (key value : List Char) (e : List Char) : Prop :=
  ∃ g g', Gap g ∧ Gap g' ∧ e = key ++ (g ++ ':' :: (g' ++ value))

theorem Followed.ends {close : Char} {es : List (List Char)} {t : List Char} (followed : Followed close es t)
    (closes : ∀ r, Ends (close :: r)) (r : List Char) : Ends (t ++ r) := by
  cases followed with
  | stop gap =>
    rw [List.append_assoc]
    exact gap.ends_append (closes r)
  | more gap =>
    rw [List.append_assoc]
    exact gap.ends_append (ends_cons (by decide) _)

theorem ends_bracket (r : List Char) : Ends (']' :: r) := ends_cons (by decide) r

theorem ends_brace (r : List Char) : Ends ('}' :: r) := ends_cons (by decide) r

end Lists

def Begins (v : List Char) : Prop := ∃ c t, v = c :: t ∧ isSpace c = false ∧ c ≠ ']'

theorem Begins.skipSpace_append {v : List Char} (begins : Begins v) (r : List Char) :
    skipSpace (v ++ r) = v ++ r := by
  obtain ⟨c, t, rfl, space, _⟩ := begins
  exact skipSpace_cons space _

-- `p` takes `v` as `a` wherever a value may stand.
structure Takes {α : Type} (p : Reader α) (v : List Char) (a : α) : Prop where
  begins : Begins v
  reads : ∀ g r, Gap g → Ends r → Reads p (g ++ (v ++ r)) a r

namespace Takes
variable {α β : Type}

theorem map {p : Reader α} {v : List Char} {a : α} (takes : Takes p v a) (f : α → β) : Takes (p.map f) v (f a) where
  begins := takes.begins
  reads g r gap ends := reads_map.mpr ⟨a, takes.reads g r gap ends, rfl⟩

theorem choose {f : Char → Reader α} {c : Char} {t : List Char} {a : α} (space : isSpace c = false)
    (bracket : c ≠ ']') (reads : ∀ r, Ends r → Reads (f c) (c :: (t ++ r)) a r) :
    Takes (Reader.choose f) (c :: t) a where
  begins := ⟨c, t, rfl, space, bracket⟩
  reads g r gap ends := by
    refine reads_choose.mpr ⟨c, t ++ r, ?_, reads r ends⟩
    rw [gap.skipSpace_append]
    exact skipSpace_cons space _

theorem decode {p : Reader α} {v g g' : List Char} {a : α} (takes : Takes p v a) (gap : Gap g) (gap' : Gap g') :
    Json.decode p (String.ofList (g ++ (v ++ g'))) = .ok a := by
  refine decode_eq_ok_iff.mpr ⟨g', ?_, ?_⟩
  · rw [String.toList_ofList]
    exact takes.reads g g' gap (by simpa using gap'.ends_append ends_nil)
  · simpa [skipSpace] using gap'.skipSpace_append []

end Takes

theorem StringText.takes_text {t : List Char} {s : String} (spelled : StringText t s) : Takes text t s := by
  obtain ⟨b, rfl⟩ := spelled.begins
  exact .choose (by decide) (by decide) fun r _ => spelled.reads r

theorem StringText.takes_textOrNull {t : List Char} {s : String} (spelled : StringText t s) :
    Takes textOrNull t (some s) := by
  obtain ⟨b, rfl⟩ := spelled.begins
  refine .choose (by decide) (by decide) fun r _ => reads_map.mpr ⟨s, ?_, rfl⟩
  exact spelled.takes_text.reads [] r gap_nil ‹_›

theorem takes_textOrNull_null : Takes textOrNull ['n', 'u', 'l', 'l'] none :=
  .choose (by decide) (by decide) fun _ _ => reads_word.mpr ⟨rfl, rfl⟩

theorem Gap.reads_value {g s r : List Char} {v : Json} {levels : Nat} (gap : Gap g)
    (read : Reads (value levels) s v r) : Reads (value levels) (g ++ s) v r := by
  obtain ⟨f, parts⟩ : ∃ f, value levels = Reader.choose f := by cases levels <;> exact ⟨_, by rw [value]⟩
  rw [parts] at read ⊢
  obtain ⟨c, t, whole, first⟩ := reads_choose.mp read
  exact reads_choose.mpr ⟨c, t, by rw [gap.skipSpace_append, whole], first⟩

theorem followed_moreItemChars (vs : List Json) : Followed ']' (vs.map chars) (moreItemChars vs) := by
  induction vs with
  | nil => exact .stop gap_nil
  | cons v vs ih => exact .more gap_nil gap_nil ih

theorem enclosed_itemChars (vs : List Json) : Enclosed ']' (vs.map chars) (itemChars vs) := by
  cases vs with
  | nil => exact .empty gap_nil
  | cons v vs => exact .some gap_nil (followed_moreItemChars vs)

def writeMember (m : String × Json) : List Char := writeString m.1 ++ ':' :: m.2.chars

theorem memberText_writeMember (m : String × Json) : MemberText (writeString m.1) m.2.chars (writeMember m) :=
  ⟨[], [], gap_nil, gap_nil, rfl⟩

theorem followed_moreMemberChars (ms : List (String × Json)) :
    Followed '}' (ms.map writeMember) (moreMemberChars ms) := by
  induction ms with
  | nil => exact .stop gap_nil
  | cons m ms ih => simpa [moreMemberChars, writeMember] using Followed.more (e := writeMember m) gap_nil gap_nil ih

theorem enclosed_memberChars (ms : List (String × Json)) :
    Enclosed '}' (ms.map writeMember) (memberChars ms) := by
  cases ms with
  | nil => exact .empty gap_nil
  | cons m ms =>
    simpa [memberChars, writeMember] using Enclosed.some (e := writeMember m) gap_nil (followed_moreMemberChars ms)

section Arrays
variable {α : Type} {item : Reader α}

theorem Begins.itemAt_first {e : List Char} (begins : Begins e) (r : List Char) :
    ItemAt true (e ++ r) (e ++ r) := by
  obtain ⟨c, t, rfl, _, bracket⟩ := begins
  exact ⟨by simp, by simpa using bracket, rfl⟩

theorem Begins.itemAt_next {e g : List Char} (begins : Begins e) (gap : Gap g) (r : List Char) :
    ItemAt false (',' :: (g ++ (e ++ r))) (e ++ r) := by
  have skipped : skipSpace (g ++ (e ++ r)) = e ++ r := by rw [gap.skipSpace_append, begins.skipSpace_append]
  obtain ⟨filled, bracket, _⟩ := begins.itemAt_first r
  exact ⟨filled, bracket, _, rfl, skipped⟩

theorem reads_followed {es : List (List Char)} {t : List Char} {as : List α} (followed : Followed ']' es t)
    (taken : List.Forall₂ (Takes item) es as) (r : List Char) : Reads (items item false) (t ++ r) as r := by
  induction followed generalizing as with
  | stop gap =>
    cases taken
    rw [List.append_assoc]
    exact reads_items.mpr (.inl ⟨rfl, gap.skipSpace_cons (by decide) r⟩)
  | more gap gap' followed ih =>
    obtain _ | ⟨first, rest⟩ := taken
    simp only [List.append_assoc, List.cons_append]
    have read := first.reads [] _ gap_nil (followed.ends ends_bracket r)
    refine reads_items.mpr (.inr ⟨_, _, _, _, ?_, read, ih rest, rfl⟩)
    rw [gap.skipSpace_cons (by decide)]
    exact first.begins.itemAt_next gap' _

theorem reads_enclosed {es : List (List Char)} {t : List Char} {as : List α} (enclosed : Enclosed ']' es t)
    (taken : List.Forall₂ (Takes item) es as) (r : List Char) : Reads (items item true) (t ++ r) as r := by
  cases enclosed with
  | empty gap =>
    cases taken
    rw [List.append_assoc]
    exact reads_items.mpr (.inl ⟨rfl, gap.skipSpace_cons (by decide) r⟩)
  | some gap followed =>
    obtain _ | ⟨first, rest⟩ := taken
    simp only [List.append_assoc]
    have read := first.reads [] _ gap_nil (followed.ends ends_bracket r)
    refine reads_items.mpr (.inr ⟨_, _, _, _, ?_, read, reads_followed followed rest r, rfl⟩)
    rw [gap.skipSpace_append, List.nil_append, first.begins.skipSpace_append]
    exact first.begins.itemAt_first _

theorem takes_sequence {item : Nat → Reader α} {es : List (List Char)} {t : List Char} {as : List α} {levels : Nat}
    (enclosed : Enclosed ']' es t) (taken : List.Forall₂ (Takes (item levels)) es as) :
    Takes (sequence item (levels + 1)) ('[' :: t) as :=
  .choose (by decide) (by decide) fun r _ =>
    reads_array.mpr ⟨t ++ r, rfl, reads_enclosed enclosed taken r⟩

end Arrays
end Criteria.Json
