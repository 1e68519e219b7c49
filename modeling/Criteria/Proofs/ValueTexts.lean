import Criteria.Proofs.RecordTexts

namespace Criteria.Json
open Reader

section Strings
variable {s r : List Char}

theorem fourDigits_of_reads {n : Nat} (read : Reads fourDigits s n r) : ∃ ds, FourDigits ds n ∧ s = ds ++ r := by
  obtain ⟨_, read⟩ := read
  unfold fourDigits at read
  rcases s with _ | ⟨a, _ | ⟨b, _ | ⟨c, _ | ⟨d, s⟩⟩⟩⟩
  all_goals dsimp only at read
  all_goals split at read
  all_goals try cases read
  rename_i i j k l first second third fourth _
  exact ⟨[a, b, c, d], ⟨a, b, c, d, i, j, k, l, rfl, first, second, third, fourth, rfl⟩, rfl⟩

theorem trailing_of_reads {m : Nat} {c : Char} (read : Reads (trailing m) s c r) :
    ∃ es n, FourDigits es n ∧ isTrailing n = true ∧ joinPair m n = c ∧ s = '\\' :: 'u' :: (es ++ r) := by
  obtain ⟨_, t, slash, rest⟩ := reads_andThen.mp read
  obtain ⟨_, u, letter, code⟩ := reads_andThen.mp rest
  obtain ⟨n, taken, joined⟩ := reads_check.mp code
  obtain ⟨es, digits, rfl⟩ := fourDigits_of_reads taken
  obtain rfl := reads_char.mp letter
  obtain rfl := reads_char.mp slash
  by_cases trail : isTrailing n = true
  · rw [if_pos trail] at joined
    exact ⟨es, n, digits, trail, Except.ok.inj joined, rfl⟩
  · rw [if_neg trail] at joined
    cases joined

theorem codeText_of_reads {c : Char} (read : Reads numbered s c r) : ∃ ds, CodeText ds c ∧ s = ds ++ r := by
  obtain ⟨_, read⟩ := read
  unfold numbered at read
  split at read
  · cases read
  rename_i n t first
  obtain ⟨ds, digits, whole⟩ := fourDigits_of_reads ⟨t.2, first⟩
  split at read
  · cases read
  rename_i notTrailing
  split at read
  · rename_i lead
    split at read
    · cases read
    rename_i d u second
    cases read
    obtain ⟨es, m, others, trail, joined, after⟩ := trailing_of_reads ⟨u.2, second⟩
    refine ⟨ds ++ '\\' :: 'u' :: es, joined ▸ .pair digits others lead trail, ?_⟩
    rw [List.append_assoc]
    exact whole.trans (congrArg (ds ++ ·) after)
  · rename_i notLeading
    obtain ⟨rfl, rfl⟩ := Prod.mk.inj (Except.ok.inj read)
    exact ⟨ds, .single digits (eq_false_of_ne_true notTrailing) (eq_false_of_ne_true notLeading), whole⟩

theorem pieceText_of_reads {d c : Char} (read : Reads (piece numbered) (d :: s) c r) (quote : d ≠ '"') :
    ∃ p, PieceText CodeText p c ∧ d :: s = p ++ r := by
  obtain ⟨_, read⟩ := read
  unfold piece at read
  dsimp only at read
  split at read
  · rename_i slash
    unfold past escape at read
    cases s with
    | nil => cases read
    | cons e s =>
      dsimp only at read
      split at read
      · cases read
      rename_i b t taken
      split at taken
      · rename_i named
        cases taken
        cases read
        exact ⟨['\\', e], .named named, by rw [slash]; rfl⟩
      · split at taken
        · rename_i letter
          unfold past at taken
          split at taken
          · cases taken
          rename_i b u code
          cases taken
          cases read
          obtain ⟨ds, coded, whole⟩ := codeText_of_reads ⟨u.2, code⟩
          refine ⟨'\\' :: 'u' :: ds, .numbered coded, ?_⟩
          rw [slash, letter]
          exact congrArg (fun t => '\\' :: 'u' :: t) whole
        · cases taken
  · rename_i slash
    split at read
    · cases read
    rename_i printable
    cases read
    exact ⟨[d], .plain quote slash printable, rfl⟩

theorem body_of_reads {code : Reader Char} {cs : List Char} (read : Reads (body code) s cs r) :
    (cs = [] ∧ s = '"' :: r) ∨ ∃ d u c t ds, s = d :: u ∧ d ≠ '"' ∧ Reads (piece code) (d :: u) c t ∧
      Reads (body code) t ds r ∧ cs = c :: ds := by
  obtain ⟨_, read⟩ := read
  cases s with
  | nil =>
    rw [body] at read
    cases read
  | cons d u =>
    rw [body] at read
    split at read
    · rename_i quote
      cases read
      exact .inl ⟨rfl, by rw [quote]⟩
    · rename_i quote
      split at read
      · cases read
      rename_i c t first
      split at read
      · cases read
      rename_i ds v rest
      cases read
      exact .inr ⟨d, u, c, t.1, ds, rfl, quote, ⟨t.2, first⟩, ⟨v.2, rest⟩, rfl⟩

theorem bodyText_of_reads {cs : List Char} (read : Reads (body numbered) s cs r) :
    ∃ b, BodyText CodeText b cs ∧ s = b ++ r := by
  induction cs generalizing s with
  | nil =>
    rcases body_of_reads read with ⟨_, rfl⟩ | ⟨_, _, _, _, _, _, _, _, _, more⟩
    · exact ⟨['"'], .done, rfl⟩
    · cases more
  | cons c cs ih =>
    rcases body_of_reads read with ⟨none, _⟩ | ⟨d, u, c, t, ds, rfl, quote, first, rest, more⟩
    · cases none
    · cases more
      obtain ⟨p, piece, whole⟩ := pieceText_of_reads first quote
      obtain ⟨b, body, rfl⟩ := ih rest
      exact ⟨p ++ b, .next piece body, by rw [whole, List.append_assoc]⟩

theorem stringText_of_reads {x : String} (read : Reads Reader.string s x r) : ∃ t, StringText t x ∧ s = t ++ r := by
  obtain ⟨_, u, quote, rest⟩ := reads_andThen.mp read
  obtain ⟨cs, taken, rfl⟩ := reads_map.mp rest
  obtain ⟨b, body, rfl⟩ := bodyText_of_reads taken
  obtain rfl := reads_char.mp quote
  exact ⟨'"' :: b, ⟨b, rfl, by rwa [String.toList_ofList]⟩, rfl⟩

end Strings

section Lists
variable {s r : List Char}

def TakesOnly {α : Type} (p : Reader α) (text : α → List Char → Prop) : Prop :=
  ∀ {s a r}, Reads p s a r → ∃ g t, Gap g ∧ text a t ∧ s = g ++ (t ++ r)

theorem skipSpace_parts (s : List Char) : ∃ g, Gap g ∧ s = g ++ skipSpace s :=
  ⟨s.takeWhile isSpace, List.all_eq_true.mp List.all_takeWhile, List.takeWhile_append_dropWhile.symm⟩

theorem Gap.append {g g' : List Char} (gap : Gap g) (gap' : Gap g') : Gap (g ++ g') := by
  intro c member
  rcases List.mem_append.mp member with first | last
  · exact gap c first
  · exact gap' c last

theorem followed_of_reads {α : Type} {item : Reader α} {text : α → List Char → Prop} (only : TakesOnly item text)
    {as : List α} (read : Reads (items item false) s as r) :
    ∃ (ps : List (α × List Char)) (t : List Char), (∀ p ∈ ps, text p.1 p.2) ∧
      Followed ']' (ps.map Prod.snd) t ∧ as = ps.map Prod.fst ∧ s = t ++ r := by
  obtain ⟨g, gap, before⟩ := skipSpace_parts s
  induction as generalizing s g with
  | nil =>
    rcases reads_items.mp read with ⟨_, closed⟩ | ⟨_, _, _, _, _, _, _, more⟩
    · refine ⟨[], g ++ [']'], by simp, .stop gap, rfl, ?_⟩
      rw [before, closed]
      simp
    · cases more
  | cons a as ih =>
    rcases reads_items.mp read with ⟨none, _⟩ | ⟨u, b, t, bs, ⟨_, _, v, comma, behind⟩, first, rest, more⟩
    · cases none
    · cases more
      obtain ⟨h, gapRest, afterFirst⟩ := skipSpace_parts t
      obtain ⟨ps, w, texts, followed, rfl, whole⟩ := ih rest h gapRest afterFirst
      obtain ⟨g', gap', beforeItem⟩ := skipSpace_parts v
      obtain ⟨g'', e, gap'', written, item⟩ := only first
      refine ⟨(a, e) :: ps, g ++ ',' :: ((g' ++ g'') ++ (e ++ w)), ?_, .more gap (gap'.append gap'') followed, rfl, ?_⟩
      · exact List.forall_mem_cons.mpr ⟨written, texts⟩
      · rw [before, comma, beforeItem, behind, item, whole]
        simp

theorem enclosed_of_reads {α : Type} {item : Reader α} {text : α → List Char → Prop} (only : TakesOnly item text)
    {as : List α} (read : Reads (items item true) s as r) :
    ∃ (ps : List (α × List Char)) (t : List Char), (∀ p ∈ ps, text p.1 p.2) ∧
      Enclosed ']' (ps.map Prod.snd) t ∧ as = ps.map Prod.fst ∧ s = t ++ r := by
  obtain ⟨g, gap, before⟩ := skipSpace_parts s
  rcases reads_items.mp read with ⟨rfl, closed⟩ | ⟨u, a, t, as, ⟨_, _, here⟩, first, rest, rfl⟩
  · refine ⟨[], g ++ [']'], by simp, .empty gap, rfl, ?_⟩
    rw [before, closed]
    simp
  · obtain ⟨ps, w, texts, followed, rfl, rfl⟩ := followed_of_reads only rest
    obtain ⟨g', e, gap', written, item⟩ := only first
    rw [if_pos rfl] at here
    refine ⟨(a, e) :: ps, (g ++ g') ++ (e ++ w), List.forall_mem_cons.mpr ⟨written, texts⟩,
      .some (gap.append gap') followed, rfl, ?_⟩
    rw [before, here, item]
    simp

def SpelledMember (m : String × List Char) (e : List Char) : Prop :=
  ∃ key, StringText key m.1 ∧ MemberText key m.2 e

theorem spelledMember_of_reads {value : Reader Json} {text : Json → List Char → Prop} (only : TakesOnly value text)
    {name : String} {key u v t : List Char} {j : Json} (spelled : StringText key name) (colon : skipSpace u = ':' :: v)
    (read : Reads value v j t) : ∃ w e, text j w ∧ SpelledMember (name, w) e ∧ key ++ u = e ++ t := by
  obtain ⟨g, gap, behindKey⟩ := skipSpace_parts u
  obtain ⟨g', w, gap', written, rfl⟩ := only read
  refine ⟨w, key ++ (g ++ ':' :: (g' ++ w)), written, ⟨key, spelled, g, g', gap, gap', rfl⟩, ?_⟩
  rw [behindKey, colon]
  simp

theorem followedMembers_of_reads {value : Reader Json} {text : Json → List Char → Prop} (only : TakesOnly value text)
    {first : Bool} {before final : List (String × Json)} (read : MembersRead (memberStep value) first before s final r)
    (later : first = false) :
    ∃ (ms : List ((String × Json) × List Char)) (es : List (List Char)) (t : List Char),
      (∀ m ∈ ms, text m.1.2 m.2) ∧ List.Forall₂ SpelledMember (ms.map fun m => (m.1.1, m.2)) es ∧
      Followed '}' es t ∧ final = (ms.map Prod.fst).reverse ++ before ∧ s = t ++ r := by
  induction read with
  | @stop _ _ s _ closed =>
    obtain ⟨g, gap, before⟩ := skipSpace_parts s
    refine ⟨[], [], g ++ ['}'], by simp, .nil, .stop gap, rfl, ?_⟩
    rw [before, closed]
    simp
  | @next _ before _ _ name _ s u v t r key known colon taken _ ih =>
    obtain ⟨g, gap, whole⟩ := skipSpace_parts s
    rw [later] at key
    obtain ⟨w, comma, key⟩ := key
    obtain ⟨k, spelled, behind⟩ := stringText_of_reads key
    obtain ⟨g', gap', beforeKey⟩ := skipSpace_parts w
    cases known
    obtain ⟨j, value, rfl⟩ := reads_map.mp taken
    obtain ⟨x, e, written, member, rest⟩ := spelledMember_of_reads only spelled colon value
    obtain ⟨ms, es, z, texts, members, followed, rfl, rfl⟩ := ih rfl
    refine ⟨((name, j), x) :: ms, e :: es, g ++ ',' :: (g' ++ (e ++ z)), List.forall_mem_cons.mpr ⟨written, texts⟩,
      .cons member members, .more gap gap' followed, by simp, ?_⟩
    rw [whole, comma, beforeKey, behind, rest]
    simp

theorem enclosedMembers_of_reads {value : Reader Json} {text : Json → List Char → Prop} (only : TakesOnly value text)
    {final : List (String × Json)} (read : Reads (members (memberStep value) true []) s final r) :
    ∃ (ms : List ((String × Json) × List Char)) (es : List (List Char)) (t : List Char),
      (∀ m ∈ ms, text m.1.2 m.2) ∧ List.Forall₂ SpelledMember (ms.map fun m => (m.1.1, m.2)) es ∧
      Enclosed '}' es t ∧ final = (ms.map Prod.fst).reverse ∧ s = t ++ r := by
  obtain ⟨g, gap, whole⟩ := skipSpace_parts s
  cases membersRead_of_reads read with
  | stop closed =>
    refine ⟨[], [], g ++ ['}'], by simp, .nil, .empty gap, rfl, ?_⟩
    rw [whole, closed]
    simp
  | @next _ _ _ _ name _ _ u v t _ key known colon taken rest =>
    obtain ⟨k, spelled, behind⟩ := stringText_of_reads key
    cases known
    obtain ⟨j, value, rfl⟩ := reads_map.mp taken
    obtain ⟨x, e, written, member, after⟩ := spelledMember_of_reads only spelled colon value
    obtain ⟨ms, es, z, texts, members, followed, rfl, rfl⟩ := followedMembers_of_reads only rest rfl
    refine ⟨((name, j), x) :: ms, e :: es, g ++ (e ++ z), List.forall_mem_cons.mpr ⟨written, texts⟩,
      .cons member members, .some gap followed, by simp, ?_⟩
    rw [whole, behind, after]
    simp

end Lists

-- What may be written for a tree. A numeral is written for the number that it stands for.
inductive TextOf : Json → List Char → Prop where
  | null : TextOf .null ['n', 'u', 'l', 'l']
  | true : TextOf (.bool true) ['t', 'r', 'u', 'e']
  | false : TextOf (.bool false) ['f', 'a', 'l', 's', 'e']
  | number {n : Numeral} {x : Number} {t : List Char} : NumeralText n t → n.number? = .ok x → TextOf (.number x) t
  | string {s : String} {t : List Char} : StringText t s → TextOf (.string s) t
  | array {ps : List (Json × List Char)} {t : List Char} : ArrayText (ps.map Prod.snd) t →
      (∀ p ∈ ps, TextOf p.1 p.2) → TextOf (.array (ps.map Prod.fst)) t
  | object {ms : List ((String × Json) × List Char)} {t : List Char} : ObjectText (ms.map fun m => (m.1.1, m.2)) t →
      (∀ m ∈ ms, TextOf m.1.2 m.2) → TextOf (.object (ms.map Prod.fst)) t

theorem takes_scalar {c : Char} {t : List Char} {j : Json} {levels : Nat}
    (apart : isSpace c = false ∧ c ≠ ']' ∧ c ≠ '[' ∧ c ≠ '{')
    (read : ∀ r, Ends r → Reads (scalar c) (c :: (t ++ r)) j r) : Takes (value levels) (c :: t) j where
  begins := ⟨c, t, rfl, apart.1, apart.2.1⟩
  reads _ r gap ends := gap.reads_value (reads_scalar_of apart.1 apart.2.2 (read r ends))

theorem takes_array {levels : Nat} {ps : List (Json × List Char)} {t : List Char}
    (written : ArrayText (ps.map Prod.snd) t) (taken : ∀ p ∈ ps, Takes (value levels) p.2 p.1) :
    Takes (value (levels + 1)) t (.array (ps.map Prod.fst)) := by
  obtain ⟨u, rfl, enclosed⟩ := written
  have each : List.Forall₂ (Takes (value levels)) (ps.map Prod.snd) (ps.map Prod.fst) := by
    rw [List.forall₂_map_left_iff, List.forall₂_map_right_iff, List.forall₂_same]
    exact taken
  rw [value]
  refine .choose (by decide) (by decide) fun r _ => ?_
  exact reads_map.mpr ⟨_, reads_array.mpr ⟨u ++ r, rfl, reads_enclosed enclosed each r⟩, rfl⟩

theorem gathers_memberStep {levels : Nat} {ms : List ((String × Json) × List Char)} (before : List (String × Json))
    (taken : ∀ m ∈ ms, Takes (value levels) m.2 m.1.2) :
    Gathers (memberStep (value levels)) before (ms.map fun m => (m.1.1, m.2)) ((ms.map Prod.fst).reverse ++ before) := by
  induction ms generalizing before with
  | nil => exact .nil
  | cons m ms ih =>
    rw [List.forall_mem_cons] at taken
    have rest := ih (m.1 :: before) taken.2
    rw [List.map_cons, List.map_cons, List.reverse_cons, List.append_assoc]
    exact .cons rfl (taken.1.map _) rest

theorem takes_members {levels : Nat} {ms : List ((String × Json) × List Char)} {t : List Char}
    (written : ObjectText (ms.map fun m => (m.1.1, m.2)) t) (taken : ∀ m ∈ ms, Takes (value levels) m.2 m.1.2) :
    Takes (value (levels + 1)) t (.object (ms.map Prod.fst)) := by
  have read := reads_gathered written (gathers_memberStep [] taken)
  obtain ⟨es, u, rfl, _⟩ := written
  rw [value]
  refine .choose (by decide) (by decide) fun r _ => ?_
  exact reads_map.mpr ⟨_, read r, by simp⟩

-- By the tree: whatever may be written for it is taken as it, where there is room for its nesting.
theorem TextOf.takes {j : Json} {t : List Char} (text : j.TextOf t) {levels : Nat} (deep : j.depth ≤ levels) :
    Takes (value levels) t j := by
  induction text generalizing levels with
  | null => exact takes_scalar (by decide) fun r _ => reads_word.mpr ⟨rfl, rfl⟩
  | true => exact takes_scalar (by decide) fun r _ => reads_word.mpr ⟨rfl, rfl⟩
  | false => exact takes_scalar (by decide) fun r _ => reads_word.mpr ⟨rfl, rfl⟩
  | @number n x t written worth =>
    obtain ⟨c, u, rfl, known⟩ := written.text.begins
    obtain ⟨space, bracket, open₁, open₂, n', t', f', quote⟩ := numeric known
    refine takes_scalar ⟨space, bracket, open₁, open₂⟩ fun r ends => ?_
    have start : (decide (c = '-') || c.isDigit) = Bool.true := by simpa using known
    rw [scalar, if_neg n', if_neg t', if_neg f', if_neg quote, if_pos start]
    exact reads_map.mpr ⟨x, reads_check.mpr ⟨n, reads_numeral _ written ends, worth⟩, rfl⟩
  | @string s t spelled =>
    obtain ⟨b, rfl⟩ := spelled.begins
    exact takes_scalar (by decide) fun r _ => reads_map.mpr ⟨s, spelled.reads r, rfl⟩
  | @array ps t written _ ih =>
    rw [depth] at deep
    cases levels with
    | zero => omega
    | succ levels =>
      have inside := depthItems_le_iff.mp (Nat.le_of_succ_le_succ deep)
      exact takes_array written fun p member => ih p member (inside p.1 (List.mem_map_of_mem member))
  | @object ms t written _ ih =>
    rw [depth] at deep
    cases levels with
    | zero => omega
    | succ levels =>
      have inside := depthMembers_le_iff.mp (Nat.le_of_succ_le_succ deep)
      exact takes_members written fun m member => ih m member (inside m.1 (List.mem_map_of_mem member))

theorem textOf_of_reads_scalar {c : Char} {s r : List Char} {j : Json} (read : Reads (scalar c) s j r) :
    ∃ t, j.TextOf t ∧ j.depth = 0 ∧ s = t ++ r := by
  unfold scalar at read
  split at read
  · obtain ⟨rfl, rfl⟩ := reads_word.mp read
    exact ⟨_, .null, rfl, rfl⟩
  split at read
  · obtain ⟨rfl, rfl⟩ := reads_word.mp read
    exact ⟨_, .true, rfl, rfl⟩
  split at read
  · obtain ⟨rfl, rfl⟩ := reads_word.mp read
    exact ⟨_, .false, rfl, rfl⟩
  split at read
  · obtain ⟨x, taken, rfl⟩ := reads_map.mp read
    obtain ⟨t, spelled, rfl⟩ := stringText_of_reads taken
    exact ⟨t, .string spelled, rfl, rfl⟩
  split at read
  · obtain ⟨x, taken, rfl⟩ := reads_map.mp read
    obtain ⟨n, numeral, worth⟩ := reads_check.mp taken
    obtain ⟨t, written, rfl⟩ := numeralText_of_reads numeral
    exact ⟨t, .number written worth, rfl, rfl⟩
  · exact absurd read reads_fail

-- By the levels of nesting: what was taken as a tree may be written for it.
theorem takesOnly_value (levels : Nat) : TakesOnly (value levels) fun j t => j.TextOf t ∧ j.depth ≤ levels := by
  induction levels with
  | zero =>
    intro s j r read
    rw [value] at read
    obtain ⟨c, u, skipped, taken⟩ := reads_choose.mp read
    obtain ⟨g, gap, before⟩ := skipSpace_parts s
    rw [before, skipped]
    split at taken
    · exact absurd taken reads_fail
    · obtain ⟨t, text, flat, whole⟩ := textOf_of_reads_scalar taken
      exact ⟨g, t, gap, ⟨text, Nat.le_of_eq flat⟩, by rw [whole]⟩
  | succ levels ih =>
    intro s j r read
    rw [value] at read
    obtain ⟨c, u, skipped, taken⟩ := reads_choose.mp read
    obtain ⟨g, gap, before⟩ := skipSpace_parts s
    rw [before, skipped]
    split at taken
    · obtain ⟨as, list, rfl⟩ := reads_map.mp taken
      obtain ⟨v, opened, inside⟩ := reads_array.mp list
      obtain ⟨ps, t, texts, enclosed, rfl, rfl⟩ := enclosed_of_reads ih inside
      refine ⟨g, '[' :: t, gap, ⟨.array ⟨t, rfl, enclosed⟩ fun p member => (texts p member).1, ?_⟩, by rw [opened]; rfl⟩
      rw [depth]
      refine Nat.succ_le_succ (depthItems_le_iff.mpr fun v member => ?_)
      obtain ⟨p, listed, rfl⟩ := List.mem_map.mp member
      exact (texts p listed).2
    split at taken
    · obtain ⟨ms, list, rfl⟩ := reads_map.mp taken
      obtain ⟨v, opened, inside⟩ := reads_object.mp list
      obtain ⟨ps, es, t, texts, members, enclosed, rfl, rfl⟩ := enclosedMembers_of_reads ih inside
      rw [List.reverse_reverse]
      refine ⟨g, '{' :: t, gap, ⟨.object ⟨es, t, rfl, enclosed, members⟩ fun m member => (texts m member).1, ?_⟩,
        by rw [opened]; rfl⟩
      rw [depth]
      refine Nat.succ_le_succ (depthMembers_le_iff.mpr fun v member => ?_)
      obtain ⟨p, listed, rfl⟩ := List.mem_map.mp member
      exact (texts p listed).2
    · obtain ⟨t, text, flat, whole⟩ := textOf_of_reads_scalar taken
      exact ⟨g, t, gap, ⟨text, flat ▸ Nat.zero_le _⟩, by rw [whole]⟩

theorem decode_value_iff {levels : Nat} {text : String} {j : Json} :
    Json.decode (value levels) text = .ok j ↔
      j.depth ≤ levels ∧ ∃ g t g', Gap g ∧ Gap g' ∧ j.TextOf t ∧ text = .ofList (g ++ (t ++ g')) := by
  constructor
  · intro decoded
    obtain ⟨r, read, space⟩ := decode_eq_ok_iff.mp decoded
    obtain ⟨g, t, gap, ⟨written, deep⟩, whole⟩ := takesOnly_value levels read
    obtain ⟨g', gap', behind⟩ := skipSpace_parts r
    rw [space, List.append_nil] at behind
    refine ⟨deep, g, t, g', gap, gap', written, ?_⟩
    rw [← behind, ← whole, String.ofList_toList]
  · rintro ⟨deep, g, t, g', gap, gap', written, rfl⟩
    exact (written.takes deep).decode gap gap'

theorem decode_textOf_iff {levels : Nat} {j k : Json} {g t g' : List Char} (text : j.TextOf t) (gap : Gap g)
    (gap' : Gap g') : Json.decode (value levels) (.ofList (g ++ (t ++ g'))) = .ok k ↔ j.depth ≤ levels ∧ j = k := by
  constructor
  · intro decoded
    obtain ⟨deep, parts⟩ := decode_value_iff.mp decoded
    have first : Json.decode (value (max j.depth k.depth)) (.ofList (g ++ (t ++ g'))) = .ok j :=
      decode_value_iff.mpr ⟨Nat.le_max_left _ _, g, t, g', gap, gap', text, rfl⟩
    have second := decode_value_iff.mpr ⟨Nat.le_max_right j.depth k.depth, parts⟩
    rw [first] at second
    obtain rfl := Except.ok.inj second
    exact ⟨deep, rfl⟩
  · rintro ⟨deep, rfl⟩
    exact decode_value_iff.mpr ⟨deep, g, t, g', gap, gap', text, rfl⟩

theorem numberlessItems_iff {vs : List Json} : numberlessItems vs = true ↔ ∀ v ∈ vs, v.numberless = true := by
  induction vs with
  | nil => simp [numberlessItems]
  | cons v vs ih => rw [numberlessItems, Bool.and_eq_true, ih, List.forall_mem_cons]

theorem numberlessMembers_iff {ms : List (String × Json)} :
    numberlessMembers ms = true ↔ ∀ m ∈ ms, m.2.numberless = true := by
  induction ms with
  | nil => simp [numberlessMembers]
  | cons m ms ih => rw [numberlessMembers, Bool.and_eq_true, ih, List.forall_mem_cons]

theorem textOf_chars : ∀ v : Json, v.numberless = true → v.TextOf v.chars
  | .null, _ => .null
  | .bool true, _ => .true
  | .bool false, _ => .false
  | .number n, plain => by simp [numberless] at plain
  | .string s, _ => .string (stringText_writeString s)
  | .array vs, plain => by
    rw [numberless, numberlessItems_iff] at plain
    have same : (vs.map fun v => (v, v.chars)).map Prod.fst = vs := by
      rw [List.map_map]
      exact List.map_id vs
    have written : ArrayText ((vs.map fun v => (v, v.chars)).map Prod.snd) (Json.array vs).chars := by
      rw [List.map_map]
      exact arrayText_chars vs
    have text := TextOf.array written fun p member => by
      obtain ⟨v, listed, rfl⟩ := List.mem_map.mp member
      exact textOf_chars v (plain v listed)
    rwa [same] at text
  | .object ms, plain => by
    rw [numberless, numberlessMembers_iff] at plain
    have same : (ms.map fun m => (m, m.2.chars)).map Prod.fst = ms := by
      rw [List.map_map]
      exact List.map_id ms
    have written : ObjectText ((ms.map fun m => (m, m.2.chars)).map fun m => (m.1.1, m.2)) (Json.object ms).chars := by
      rw [List.map_map]
      exact objectText_chars ms
    have text := TextOf.object written fun m member => by
      obtain ⟨n, listed, rfl⟩ := List.mem_map.mp member
      exact textOf_chars n.2 (plain n listed)
    rwa [same] at text
decreasing_by
  · have smaller := List.sizeOf_lt_of_mem listed
    simp only [array.sizeOf_spec]
    omega
  · have smaller := List.sizeOf_lt_of_mem listed
    have within : sizeOf n = 1 + sizeOf n.1 + sizeOf n.2 := rfl
    simp only [object.sizeOf_spec]
    omega

theorem takes_chars {v : Json} {levels : Nat} (plain : v.numberless = true) (deep : v.depth ≤ levels) :
    Takes (value levels) v.chars v := (textOf_chars v plain).takes deep

theorem decode_render (v : Json) (plain : v.numberless = true) (deep : v.depth ≤ room) :
    Json.decode (value room) v.render = .ok v := by
  simpa [render] using (takes_chars plain deep).decode gap_nil gap_nil

theorem BodyText.anyCode {b cs : List Char} (body : BodyText CodeText b cs) :
    ∃ ds, BodyText (fun ds c => c = ' ' ∧ ∃ n, FourDigits ds n) b ds := by
  induction body with
  | done => exact ⟨[], .done⟩
  | @next p t cs c piece _ ih =>
    obtain ⟨ds, rest⟩ := ih
    cases piece with
    | plain quote slash printable => exact ⟨_, .next (.plain quote slash printable) rest⟩
    | named known => exact ⟨_, .next (.named known) rest⟩
    | numbered code =>
      cases code with
      | single digits => exact ⟨_, .next (.numbered ⟨rfl, _, digits⟩) rest⟩
      | pair digits others =>
        have second := BodyText.next (.numbered ⟨rfl, _, others⟩) rest
        have both := BodyText.next (.numbered ⟨rfl, _, digits⟩) second
        exact ⟨_, by simpa using both⟩

theorem StringText.anyString {t : List Char} {s : String} (spelled : StringText t s) : AnyStringText t := by
  obtain ⟨b, rfl, body⟩ := spelled
  obtain ⟨ds, any⟩ := body.anyCode
  exact ⟨b, ds, rfl, any⟩

theorem ObjectText.valueText {ms : List (String × List Char)} {t : List Char} (written : ObjectText ms t)
    (values : ∀ m ∈ ms, ValueText m.2) : ValueText t := by
  obtain ⟨es, u, rfl, enclosed, members⟩ := written
  have keyed : ∃ ks : List (List Char × List Char), List.Forall₂ (fun k e => MemberText k.1 k.2 e) ks es ∧
      (∀ k ∈ ks, AnyStringText k.1) ∧ ∀ k ∈ ks, ValueText k.2 := by
    clear enclosed
    induction members with
    | nil => exact ⟨[], .nil, by simp, by simp⟩
    | @cons m e ms es first _ ih =>
      rw [List.forall_mem_cons] at values
      obtain ⟨key, spelled, member⟩ := first
      obtain ⟨ks, others, keys, rest⟩ := ih values.2
      exact ⟨(key, m.2) :: ks, .cons member others, List.forall_mem_cons.mpr ⟨spelled.anyString, keys⟩,
        List.forall_mem_cons.mpr ⟨values.1, rest⟩⟩
  obtain ⟨ks, others, keys, rest⟩ := keyed
  exact .object enclosed others keys rest

theorem TextOf.valueText {j : Json} {t : List Char} (text : j.TextOf t) : ValueText t := by
  induction text with
  | null => exact .null
  | true => exact .true
  | false => exact .false
  | number written _ => exact .number written.text
  | string spelled => exact .string spelled.anyString
  | array written _ ih =>
    obtain ⟨u, rfl, enclosed⟩ := written
    refine .array enclosed fun e member => ?_
    obtain ⟨p, listed, rfl⟩ := List.mem_map.mp member
    exact ih p listed
  | object written _ ih =>
    refine written.valueText fun e member => ?_
    obtain ⟨m, listed, rfl⟩ := List.mem_map.mp member
    exact ih m listed

theorem reads_passValue_of_value {levels : Nat} {s r : List Char} {j : Json} (read : Reads (value levels) s j r)
    (ends : Ends r) : Reads passValue s () r := by
  obtain ⟨g, t, gap, ⟨text, _⟩, rfl⟩ := takesOnly_value levels read
  exact (takes_passValue text.valueText).reads g r gap ends

end Criteria.Json
