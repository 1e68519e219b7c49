import Criteria.Json.Passed
import Criteria.Proofs.Numerals

namespace Criteria.Json
open Reader

-- A string whose escapes are of any code: halves of a pair may stand alone.
def AnyStringText (t : List Char) : Prop :=
  ∃ b cs, t = '"' :: b ∧ BodyText (fun ds c => c = ' ' ∧ ∃ n, FourDigits ds n) b cs

inductive ValueText : List Char → Prop where
  | null : ValueText ['n', 'u', 'l', 'l']
  | true : ValueText ['t', 'r', 'u', 'e']
  | false : ValueText ['f', 'a', 'l', 's', 'e']
  | string {t : List Char} : AnyStringText t → ValueText t
  | number {t : List Char} : NumberText t → ValueText t
  | array {es : List (List Char)} {t : List Char} : Enclosed ']' es t → (∀ e ∈ es, ValueText e) →
      ValueText ('[' :: t)
  | object {ms : List (List Char × List Char)} {es : List (List Char)} {t : List Char} : Enclosed '}' es t →
      List.Forall₂ (fun m e => MemberText m.1 m.2 e) ms es → (∀ m ∈ ms, AnyStringText m.1) →
      (∀ m ∈ ms, ValueText m.2) → ValueText ('{' :: t)

theorem AnyStringText.reads {t : List Char} (anyString : AnyStringText t) (r : List Char) :
    Reads passString (t ++ r) () r := by
  obtain ⟨b, cs, rfl, body⟩ := anyString
  refine reads_andThen.mpr ⟨(), b ++ r, reads_char.mpr rfl, reads_map.mpr ⟨cs, body.reads ?_ r, rfl⟩⟩
  rintro ds c r ⟨rfl, n, digits⟩
  exact reads_map.mpr ⟨n, digits.reads r, rfl⟩

theorem AnyStringText.begins {t : List Char} (anyString : AnyStringText t) : ∃ b, t = '"' :: b := by
  obtain ⟨b, _, rfl, _⟩ := anyString
  exact ⟨b, rfl⟩

theorem NumberText.begins {t : List Char} (number : NumberText t) :
    ∃ c u, t = c :: u ∧ (c = '-' ∨ c.isDigit = true) := by
  obtain ⟨sign, w, f, e, signed, ⟨⟨filled, all⟩, _⟩, _, _, rfl⟩ := number
  obtain rfl | rfl := signed
  · obtain _ | ⟨c, ds⟩ := w
    · exact absurd rfl filled
    · exact ⟨c, _, rfl, .inr (all c (by simp))⟩
  · exact ⟨'-', _, rfl, .inl rfl⟩

theorem numeric {c : Char} (known : c = '-' ∨ c.isDigit = true) :
    isSpace c = false ∧ c ≠ ']' ∧ c ≠ '[' ∧ c ≠ '{' ∧ c ≠ 'n' ∧ c ≠ 't' ∧ c ≠ 'f' ∧ c ≠ '"' := by
  obtain rfl | digit := known
  · decide
  · have apart : ∀ d : Char, d.isDigit = false → c ≠ d := by
      rintro d other rfl
      simp [digit] at other
    refine ⟨?_, apart _ rfl, apart _ rfl, apart _ rfl, apart _ rfl, apart _ rfl, apart _ rfl, apart _ rfl⟩
    simp [isSpace, apart ' ' rfl, apart '\t' rfl, apart '\n' rfl, apart '\r' rfl]

section Opening
variable {s r u : List Char}

-- How a value begins, with what is left then.
def Opens {s : List Char} (way : {s : List Char} → Rest s → Opening s) (x : Except Fault (Opening s))
    (r : List Char) : Prop := ∃ h, x = .ok (way ⟨r, h⟩)

theorem opens_opening {way : {s : List Char} → Rest s → Opening s}
    (widens : ∀ {s t : List Char} (h : s.length ≤ t.length) (r : Rest s), (way r).widen h = way (r.widen h))
    (opens : Opens way (openingAt (skipSpace s)) r) : Opens way (opening s) r := by
  obtain ⟨h, opens⟩ := opens
  exact ⟨Nat.lt_of_lt_of_le h (length_skipSpace_le s), by simp [opening, opens, widens, Rest.widen]⟩

theorem reads_passValue_whole (opens : Opens .whole (openingAt (skipSpace s)) r) : Reads passValue s () r := by
  obtain ⟨h, opens⟩ := opens_opening (fun _ _ => rfl) opens
  refine ⟨h, ?_⟩
  rw [passValue, opens]

theorem reads_passValue_items (opens : Opens .items (openingAt (skipSpace s)) u) (read : Reads passItems u () r) :
    Reads passValue s () r := by
  obtain ⟨h, opens⟩ := opens_opening (fun _ _ => rfl) opens
  obtain ⟨k, read⟩ := read
  refine ⟨Nat.lt_trans k h, ?_⟩
  rw [passValue, opens]
  simp [read, Rest.trans]

theorem reads_passValue_members (opens : Opens .members (openingAt (skipSpace s)) u)
    (read : Reads passMembers u () r) : Reads passValue s () r := by
  obtain ⟨h, opens⟩ := opens_opening (fun _ _ => rfl) opens
  obtain ⟨k, read⟩ := read
  refine ⟨Nat.lt_trans k h, ?_⟩
  rw [passValue, opens]
  simp [read, Rest.trans]

theorem opens_scalar {c : Char} (bracket : c ≠ '[' ∧ c ≠ '{') (read : Reads (passScalar c) (c :: s) () r) :
    Opens .whole (openingAt (c :: s)) r := by
  obtain ⟨h, read⟩ := read
  exact ⟨h, by simp [openingAt, bracket.1, bracket.2, read]⟩

theorem closing?_eq_some {close : Char} (closed : skipSpace s = close :: r) :
    ∃ h, closing? close s = some ⟨r, h⟩ := by
  obtain ⟨h, read⟩ : Reads (spaced (char .expectedValue .expectedValue close)) s () r := by
    rw [reads_spaced, reads_char]
    exact closed
  exact ⟨h, by simp [closing?, read]⟩

theorem closing?_eq_none {close c : Char} (next : skipSpace s = c :: r) (other : c ≠ close) :
    closing? close s = none := by
  unfold closing?
  split
  · rfl
  · rename_i u read
    have closed := reads_char.mp (reads_spaced.mp ⟨u.2, read⟩)
    rw [next] at closed
    cases closed
    exact absurd rfl other

theorem opens_brackets_empty (closed : skipSpace s = ']' :: r) : Opens .whole (openingAt ('[' :: s)) r := by
  obtain ⟨h, found⟩ := closing?_eq_some closed
  exact ⟨Nat.lt_succ_of_lt h, by simp [openingAt, closed, found, Rest.trans]⟩

theorem opens_braces_empty (closed : skipSpace s = '}' :: r) : Opens .whole (openingAt ('{' :: s)) r := by
  obtain ⟨h, found⟩ := closing?_eq_some closed
  exact ⟨Nat.lt_succ_of_lt h, by simp [openingAt, found, Rest.trans]⟩

theorem opens_brackets {c : Char} (next : skipSpace s = c :: r) (other : c ≠ ']') :
    Opens .items (openingAt ('[' :: s)) s :=
  ⟨Nat.lt_succ_self _, by simp [openingAt, next, closing?_eq_none next other, Rest.tail]⟩

theorem opens_braces {c : Char} (next : skipSpace s = c :: r) (other : c ≠ '}') :
    Opens .members (openingAt ('{' :: s)) s :=
  ⟨Nat.lt_succ_self _, by simp [openingAt, closing?_eq_none next other, Rest.tail]⟩

end Opening

section Following
variable {s r m n : List Char}

theorem reads_follow_close {close : Char} (cut other : Fault) (closed : skipSpace s = close :: r) :
    Reads (follow close cut other) s false r := by
  rw [follow, reads_spaced, closed]
  exact ⟨Nat.lt_succ_self _, by simp [Rest.tail]⟩

theorem reads_follow_comma {close : Char} (cut other : Fault) (next : skipSpace s = ',' :: r) (kind : ',' ≠ close) :
    Reads (follow close cut other) s true r := by
  rw [follow, reads_spaced, next]
  exact ⟨Nat.lt_succ_self _, by simp [kind, Rest.tail]⟩

theorem reads_passItems_last (first : Reads passValue s () m) (closed : skipSpace m = ']' :: r) :
    Reads passItems s () r := by
  obtain ⟨h, first⟩ := first
  obtain ⟨k, close⟩ := reads_follow_close (.unfinished .list) .expectedCommaOrBracket closed
  refine ⟨Nat.lt_trans k h, ?_⟩
  rw [passItems]
  simp [first, close, Rest.trans]

theorem reads_passItems_more (first : Reads passValue s () m) (next : skipSpace m = ',' :: n)
    (rest : Reads passItems n () r) : Reads passItems s () r := by
  obtain ⟨h, first⟩ := first
  have apart : ',' ≠ ']' := by decide
  obtain ⟨k, comma⟩ := reads_follow_comma (.unfinished .list) .expectedCommaOrBracket next apart
  obtain ⟨l, rest⟩ := rest
  refine ⟨Nat.lt_trans l (Nat.lt_trans k h), ?_⟩
  rw [passItems]
  simp [first, comma, rest, Rest.trans]

theorem reads_passMembers_last {u : List Char} (key : Reads passKey s () u) (first : Reads passValue u () m)
    (closed : skipSpace m = '}' :: r) : Reads passMembers s () r := by
  obtain ⟨g, key⟩ := key
  obtain ⟨h, first⟩ := first
  obtain ⟨k, close⟩ := reads_follow_close (.unfinished .object) .expectedCommaOrBrace closed
  refine ⟨Nat.lt_trans k (Nat.lt_trans h g), ?_⟩
  rw [passMembers]
  simp [key, first, close, Rest.trans]

theorem reads_passMembers_more {u : List Char} (key : Reads passKey s () u) (first : Reads passValue u () m)
    (next : skipSpace m = ',' :: n) (rest : Reads passMembers n () r) : Reads passMembers s () r := by
  obtain ⟨g, key⟩ := key
  obtain ⟨h, first⟩ := first
  have apart : ',' ≠ '}' := by decide
  obtain ⟨k, comma⟩ := reads_follow_comma (.unfinished .object) .expectedCommaOrBrace next apart
  obtain ⟨l, rest⟩ := rest
  refine ⟨Nat.lt_trans l (Nat.lt_trans k (Nat.lt_trans h g)), ?_⟩
  rw [passMembers]
  simp [key, first, comma, rest, Rest.trans]

theorem reads_passMember {g key v e : List Char} (gap : Gap g) (anyString : AnyStringText key)
    (written : MemberText key v e) (taken : Takes passValue v ()) (ends : Ends s) :
    ∃ u, Reads passKey (g ++ (e ++ s)) () u ∧ Reads passValue u () s := by
  obtain ⟨h, h', gapKey, gapValue, rfl⟩ := written
  obtain ⟨b, rfl⟩ := anyString.begins
  refine ⟨h' ++ (v ++ s), ?_, taken.reads h' s gapValue ends⟩
  simp only [List.append_assoc, List.cons_append]
  refine reads_andThen.mpr ⟨(), h ++ ':' :: (h' ++ (v ++ s)), ?_, reads_colon.mpr (gapKey.skipSpace_cons (by decide) _)⟩
  rw [keyStart, reads_spaced, gap.skipSpace_cons (by decide)]
  obtain ⟨shorter, read⟩ := anyString.reads (h ++ ':' :: (h' ++ (v ++ s)))
  exact ⟨shorter, by simpa using read⟩

end Following

theorem reads_passItems {g e t : List Char} {es : List (List Char)} (gap : Gap g)
    (taken : ∀ v ∈ e :: es, Takes passValue v ()) (followed : Followed ']' es t) (r : List Char) :
    Reads passItems (g ++ (e ++ (t ++ r))) () r := by
  have first := (taken e (by simp)).reads g _ gap (followed.ends ends_bracket r)
  induction followed generalizing g e with
  | stop gap' =>
    refine reads_passItems_last first ?_
    rw [List.append_assoc]
    exact gap'.skipSpace_cons (by decide) r
  | @more _ _ d _ _ gap' gap'' followed ih =>
    have others := fun v member => taken v (List.mem_cons_of_mem _ member)
    have next := (others d (by simp)).reads _ _ gap'' (followed.ends ends_bracket r)
    refine reads_passItems_more first ?_ (ih gap'' others next)
    simp only [List.append_assoc, List.cons_append]
    exact gap'.skipSpace_cons (by decide) _

theorem reads_passMembers {g e t : List Char} {m : List Char × List Char} {ms : List (List Char × List Char)}
    {es : List (List Char)} (gap : Gap g) (written : MemberText m.1 m.2 e)
    (listed : List.Forall₂ (fun m e => MemberText m.1 m.2 e) ms es) (keys : ∀ n ∈ m :: ms, AnyStringText n.1)
    (taken : ∀ n ∈ m :: ms, Takes passValue n.2 ()) (followed : Followed '}' es t) (r : List Char) :
    Reads passMembers (g ++ (e ++ (t ++ r))) () r := by
  obtain ⟨u, readKey, readValue⟩ := reads_passMember gap (keys m (by simp)) written (taken m (by simp))
    (followed.ends ends_brace r)
  induction followed generalizing g e m ms u with
  | stop gap' =>
    refine reads_passMembers_last readKey readValue ?_
    rw [List.append_assoc]
    exact gap'.skipSpace_cons (by decide) r
  | more gap' gap'' followed ih =>
    obtain _ | ⟨writtenNext, listed⟩ := listed
    have keys := fun n member => keys n (List.mem_cons_of_mem _ member)
    have taken := fun n member => taken n (List.mem_cons_of_mem _ member)
    obtain ⟨w, readNextKey, readNextValue⟩ := reads_passMember gap'' (keys _ (by simp)) writtenNext
      (taken _ (by simp)) (followed.ends ends_brace r)
    have later := ih gap'' writtenNext listed keys taken w readNextKey readNextValue
    refine reads_passMembers_more readKey readValue ?_ later
    simp only [List.append_assoc, List.cons_append]
    exact gap'.skipSpace_cons (by decide) _

theorem takes_passValue_scalar {c : Char} {t : List Char}
    (apart : isSpace c = false ∧ c ≠ ']' ∧ c ≠ '[' ∧ c ≠ '{')
    (read : ∀ r, Ends r → Reads (passScalar c) (c :: (t ++ r)) () r) : Takes passValue (c :: t) () where
  begins := ⟨c, t, rfl, apart.1, apart.2.1⟩
  reads g r gap ends := by
    refine reads_passValue_whole ?_
    rw [List.cons_append, gap.skipSpace_cons apart.1]
    exact opens_scalar apart.2.2 (read r ends)

theorem takes_passValue_array {es : List (List Char)} {t : List Char} (enclosed : Enclosed ']' es t)
    (taken : ∀ e ∈ es, Takes passValue e ()) : Takes passValue ('[' :: t) () where
  begins := ⟨'[', t, rfl, by decide, by decide⟩
  reads g r gap _ := by
    have skipped : skipSpace (g ++ ('[' :: t ++ r)) = '[' :: (t ++ r) := gap.skipSpace_cons (by decide) _
    cases enclosed with
    | empty inside =>
      refine reads_passValue_whole ?_
      rw [skipped, List.append_assoc]
      exact opens_brackets_empty (inside.skipSpace_cons (by decide) r)
    | @some _ e u _ inside followed =>
      obtain ⟨c, v, whole, space, bracket⟩ := (taken e (by simp)).begins
      refine reads_passValue_items (u := _ ++ (e ++ (u ++ r))) ?_ (reads_passItems inside taken followed r)
      rw [skipped, List.append_assoc, List.append_assoc, whole]
      exact opens_brackets (inside.skipSpace_cons space _) bracket

theorem takes_passValue_object {ms : List (List Char × List Char)} {es : List (List Char)} {t : List Char}
    (enclosed : Enclosed '}' es t) (written : List.Forall₂ (fun m e => MemberText m.1 m.2 e) ms es)
    (keys : ∀ m ∈ ms, AnyStringText m.1) (taken : ∀ m ∈ ms, Takes passValue m.2 ()) :
    Takes passValue ('{' :: t) () where
  begins := ⟨'{', t, rfl, by decide, by decide⟩
  reads g r gap _ := by
    have skipped : skipSpace (g ++ ('{' :: t ++ r)) = '{' :: (t ++ r) := gap.skipSpace_cons (by decide) _
    cases enclosed with
    | empty inside =>
      refine reads_passValue_whole ?_
      rw [skipped, List.append_assoc]
      exact opens_braces_empty (inside.skipSpace_cons (by decide) r)
    | @some _ e u _ inside followed =>
      obtain _ | ⟨first, listed⟩ := written
      have read := reads_passMembers inside first listed keys taken followed r
      obtain ⟨_, _, _, _, rfl⟩ := first
      obtain ⟨b, quoted⟩ := (List.forall_mem_cons.mp keys).1.begins
      refine reads_passValue_members ?_ read
      rw [skipped, List.append_assoc, List.append_assoc, List.append_assoc, quoted]
      exact opens_braces (inside.skipSpace_cons (by decide) _) (by decide)

theorem takes_passValue {v : List Char} (value : ValueText v) : Takes passValue v () := by
  induction value with
  | null => exact takes_passValue_scalar (by decide) fun r _ => reads_word.mpr ⟨rfl, rfl⟩
  | true => exact takes_passValue_scalar (by decide) fun r _ => reads_word.mpr ⟨rfl, rfl⟩
  | false => exact takes_passValue_scalar (by decide) fun r _ => reads_word.mpr ⟨rfl, rfl⟩
  | string anyString =>
    obtain ⟨b, rfl⟩ := anyString.begins
    exact takes_passValue_scalar (by decide) fun r _ => anyString.reads r
  | number number =>
    obtain ⟨c, u, rfl, known⟩ := number.begins
    obtain ⟨space, bracket, open₁, open₂, n, t, f, quote⟩ := numeric known
    refine takes_passValue_scalar ⟨space, bracket, open₁, open₂⟩ fun r ends => ?_
    obtain ⟨m, written⟩ := number.numeral
    have read := reads_numeral .invalidNumber written ends
    have start : (decide (c = '-') || c.isDigit) = Bool.true := by simpa using known
    rw [passScalar, if_neg n, if_neg t, if_neg f, if_neg quote, if_pos start]
    exact reads_map.mpr ⟨m, read, rfl⟩
  | array enclosed _ taken => exact takes_passValue_array enclosed taken
  | object enclosed written keys _ taken => exact takes_passValue_object enclosed written keys taken

end Criteria.Json
