import Mathlib.Data.List.Chain
import Waxseal.Base.Json

/-!
# What the JSON reader makes of what the writer wrote

Two facts about `scan` carry every statement about stored lines.

* `scan_append`: a value that was read from the front of a text is read from the front of
  any longer text, unless it is a number the longer text goes on with.
* `scan_dumps`: the reader inverts the writer.

Together they say what a torn line is (`decode_torn`): no proper prefix of a written object
can be read, and neither can two objects on one line (`decode_glued`).
-/

namespace Waxseal

namespace Json

/-! ## Text that is longer than what was read -/

/-- A character that can follow a value inside a container, and no number. -/
def isStop (c : CodePoint) : Bool :=
  isWs c || c.val == 0x2C || c.val == 0x5D || c.val == 0x7D

/-- The text goes on, with a character that no number goes on with. -/
def Stops (s : PyStr) : Prop := ∃ c t, s = c :: t ∧ isStop c = true

theorem Stops.ne_nil {s : PyStr} (h : Stops s) : s ≠ [] := by
  obtain ⟨c, t, rfl, -⟩ := h
  exact List.cons_ne_nil c t

/-- The characters of a number are no stops. -/
theorem isStop_number {c : CodePoint}
    (h : isDigit c = true ∨ c.val = 0x2E ∨ c.val = 0x65 ∨ c.val = 0x45) : isStop c = false := by
  simp only [isDigit, Bool.and_eq_true, decide_eq_true_eq] at h
  simp only [isStop, isWs, Bool.or_eq_false_iff, beq_eq_false_iff_ne]
  omega

theorem skipWs_append {s t : PyStr} {c : CodePoint} (q : PyStr) (h : skipWs s = c :: t) :
    skipWs (s ++ q) = c :: (t ++ q) := by
  unfold skipWs at h ⊢
  rw [List.dropWhile_append, h]
  rfl

theorem skipWs_append_of_ne_nil {s : PyStr} (q : PyStr) (h : skipWs s ≠ []) :
    skipWs (s ++ q) = skipWs s ++ q := by
  obtain ⟨c, t, hs⟩ := List.exists_cons_of_ne_nil h
  rw [skipWs_append q hs, hs, List.cons_append]

/-- Where a value is followed by a separator, it is followed by a stop. -/
theorem stops_of_skipWs {s t : PyStr} {c : CodePoint} (h : skipWs s = c :: t)
    (hc : isStop c = true) : Stops s := by
  cases s with
  | nil => cases h
  | cons d s =>
      refine ⟨d, s, rfl, ?_⟩
      by_cases hd : isWs d = true
      · simp [isStop, hd]
      · rw [skipWs, List.dropWhile_cons_of_neg hd] at h
        obtain ⟨rfl, -⟩ := List.cons.inj h
        exact hc

/-- A run of digits that something follows is the same run in a longer text. -/
theorem digits_append {s : PyStr} (q : PyStr) (h : s.dropWhile isDigit ≠ []) :
    (s ++ q).takeWhile isDigit = s.takeWhile isDigit ∧
      (s ++ q).dropWhile isDigit = s.dropWhile isDigit ++ q := by
  induction s with
  | nil => exact absurd rfl h
  | cons c s ih =>
      by_cases hc : isDigit c = true
      · rw [List.dropWhile_cons_of_pos hc] at h
        obtain ⟨htake, hdrop⟩ := ih h
        simp only [List.cons_append, List.takeWhile_cons_of_pos hc, List.dropWhile_cons_of_pos hc,
          htake, hdrop, and_self]
      · simp [hc]

theorem scanNat_append {s d r : PyStr} (q : PyStr) (h : scanNat s = some (d, r)) (hr : r ≠ []) :
    scanNat (s ++ q) = some (d, r ++ q) := by
  cases s with
  | nil => cases h
  | cons c s =>
      simp only [scanNat, List.cons_append] at h ⊢
      split_ifs at h ⊢
      · obtain ⟨rfl, rfl⟩ := Prod.mk.inj (Option.some.inj h)
        rfl
      · obtain ⟨rfl, rfl⟩ := Prod.mk.inj (Option.some.inj h)
        obtain ⟨htake, hdrop⟩ := digits_append q hr
        rw [htake, hdrop]

theorem scanFrac_append {s f r : PyStr} (q : PyStr) (h : scanFrac s = (f, r)) (hr : r ≠ [])
    (hdot : ∀ c, r = [c] → c.val ≠ 0x2E) : scanFrac (s ++ q) = (f, r ++ q) := by
  match s, h with
  | [], h => exact absurd (Prod.mk.inj h).2.symm hr
  | [p], h =>
      obtain ⟨rfl, rfl⟩ := Prod.mk.inj h
      have hp := hdot p rfl
      cases q with
      | nil => rfl
      | cons d q => simp [scanFrac, hp]
  | p :: c :: s, h =>
      simp only [scanFrac, List.cons_append] at h ⊢
      split_ifs at h ⊢
      · obtain ⟨rfl, rfl⟩ := Prod.mk.inj h
        obtain ⟨htake, hdrop⟩ := digits_append q hr
        rw [htake, hdrop]
      · obtain ⟨rfl, rfl⟩ := Prod.mk.inj h
        rfl

theorem scanExp_append {s e r : PyStr} (q : PyStr) (h : scanExp s = (e, r)) (hr : Stops r) :
    scanExp (s ++ q) = (e, r ++ q) := by
  match s, h with
  | [], h => exact absurd (Prod.mk.inj h).2.symm hr.ne_nil
  | [c], h =>
      obtain ⟨rfl, rfl⟩ := Prod.mk.inj h
      obtain ⟨c', t, heq, hstop⟩ := hr
      obtain ⟨rfl, rfl⟩ := List.cons.inj heq
      have hc : ¬ (c.val = 0x65 ∨ c.val = 0x45) := fun hc => by
        rw [isStop_number (.inr (.inr hc))] at hstop
        cases hstop
      cases q with
      | nil => rfl
      | cons d q => simp [scanExp, hc]
  | x :: c :: s, h =>
      simp only [scanExp, List.cons_append] at h ⊢
      split_ifs at h ⊢ with hx hc
      · obtain ⟨rfl, rfl⟩ := Prod.mk.inj h
        obtain ⟨htake, hdrop⟩ := digits_append q hr.ne_nil
        rw [htake, hdrop]
      · cases s with
        | nil =>
            obtain ⟨rfl, rfl⟩ := Prod.mk.inj h
            obtain ⟨c', t, heq, hstop⟩ := hr
            obtain ⟨rfl, rfl⟩ := List.cons.inj heq
            rw [isStop_number (.inr (.inr hx))] at hstop
            cases hstop
        | cons d s =>
            simp only [List.cons_append] at h ⊢
            split_ifs at h ⊢
            · obtain ⟨rfl, rfl⟩ := Prod.mk.inj h
              obtain ⟨htake, hdrop⟩ := digits_append q hr.ne_nil
              rw [htake, hdrop]
            · obtain ⟨rfl, rfl⟩ := Prod.mk.inj h
              rfl
      · obtain ⟨rfl, rfl⟩ := Prod.mk.inj h
        rfl

theorem scanSign_append {s : PyStr} (q : PyStr) (hs : (scanSign s).2 ≠ []) :
    scanSign (s ++ q) = ((scanSign s).1, (scanSign s).2 ++ q) := by
  cases s with
  | nil => exact absurd rfl hs
  | cons c s =>
      simp only [scanSign, List.cons_append]
      split_ifs <;> rfl

theorem scanNat_nil_ne {d r : PyStr} : scanNat [] ≠ some (d, r) := nofun

theorem scanNumber_append {s r : PyStr} {v : Json} (q : PyStr) (h : scanNumber s = some (v, r))
    (hr : Stops r) : scanNumber (s ++ q) = some (v, r ++ q) := by
  unfold scanNumber at h ⊢
  cases hnat : scanNat (scanSign s).2 with
  | none =>
      simp only [hnat] at h
      cases h
  | some out =>
      obtain ⟨digits, s₁⟩ := out
      rcases hfrac : scanFrac s₁ with ⟨frac, s₂⟩
      rcases hexp : scanExp s₂ with ⟨exp, s₃⟩
      simp only [hnat, hfrac, hexp] at h
      obtain rfl : s₃ = r := by
        split_ifs at h <;> exact (Prod.mk.inj (Option.some.inj h)).2
      have hsign_ne : (scanSign s).2 ≠ [] := fun hnil => scanNat_nil_ne (hnil ▸ hnat)
      have hfrac_ne : s₂ ≠ [] := by
        rintro rfl
        exact hr.ne_nil (Prod.mk.inj hexp).2.symm
      have hnat_ne : s₁ ≠ [] := by
        rintro rfl
        exact hfrac_ne (Prod.mk.inj hfrac).2.symm
      have hdot : ∀ c, s₂ = [c] → c.val ≠ 0x2E := by
        rintro c rfl hval
        obtain ⟨c', t, heq, hstop⟩ := hr
        obtain ⟨rfl, rfl⟩ := List.cons.inj ((Prod.mk.inj hexp).2.trans heq)
        rw [isStop_number (.inr (.inl hval))] at hstop
        cases hstop
      simp only [scanSign_append q hsign_ne, scanNat_append q hnat hnat_ne,
        scanFrac_append q hfrac hfrac_ne hdot, scanExp_append q hexp hr]
      split_ifs at h ⊢ <;> rw [(Prod.mk.inj (Option.some.inj h)).1]

theorem stripLiteral_append {l s r : PyStr} (q : PyStr) (h : stripLiteral l s = some r) :
    stripLiteral l (s ++ q) = some (r ++ q) := by
  unfold stripLiteral at h ⊢
  split_ifs at h with hpre
  obtain rfl := Option.some.inj h
  have hpre' := List.isPrefixOf_iff_prefix.mp hpre
  rw [if_pos (List.isPrefixOf_iff_prefix.mpr (hpre'.trans (List.prefix_append s q))),
    List.drop_append_of_le_length hpre'.length_le]

theorem stripLiteral_second {a b c d : CodePoint} {l s : PyStr} (h : b ≠ d) :
    stripLiteral (a :: b :: l) (c :: d :: s) = none := by
  simp [stripLiteral, List.isPrefixOf, h]

theorem scanLiteral_append {s r : PyStr} {v : Json} (q : PyStr)
    (h : scanLiteral s = some (v, r)) : scanLiteral (s ++ q) = some (v, r ++ q) := by
  cases s with
  | nil => cases h
  | cons c s =>
      simp only [scanLiteral, List.cons_append] at h ⊢
      cases hl : literalOf c with
      | none =>
          simp only [hl] at h
          cases h
      | some out =>
          simp only [hl, Option.map_eq_some_iff, Prod.mk.injEq] at h ⊢
          obtain ⟨r', hstrip, rfl, rfl⟩ := h
          exact ⟨r' ++ q, stripLiteral_append q hstrip, rfl, rfl⟩

/-- A number starts with no literal, and neither does a longer text. -/
theorem scanLiteral_number {s r : PyStr} {v : Json} (q : PyStr)
    (h : scanNumber s = some (v, r)) : scanLiteral (s ++ q) = none := by
  match s, h with
  | c :: s, h =>
      by_cases hc : c.val = 0x2D
      · match s, h with
        | [], h => simp [scanNumber, scanSign, scanNat, hc] at h
        | d :: s, h =>
            have hd : d.val ≠ 0x49 := by
              intro hd
              simp [scanNumber, scanSign, scanNat, isDigit, hc, hd] at h
            have hlit : literalOf c =
                some (Waxseal.str "-Infinity", .float (Waxseal.str "-Infinity")) := by
              unfold literalOf
              repeat rw [if_neg (by omega)]
              rw [if_pos hc]
            have hstrip : stripLiteral (Waxseal.str "-Infinity") (c :: d :: (s ++ q)) = none :=
              stripLiteral_second fun heq => hd (heq ▸ rfl)
            simp only [scanLiteral, List.cons_append, hlit, hstrip, Option.map_none]
      · have hdigit : isDigit c = true := by
          by_contra hnd
          have h0 : c.val ≠ 0x30 := by
            intro h0
            exact hnd (by simp [isDigit, h0])
          simp [scanNumber, scanSign, scanNat, hc, h0, hnd] at h
        simp only [isDigit, Bool.and_eq_true, decide_eq_true_eq] at hdigit
        have hnone : literalOf c = none := by
          unfold literalOf
          repeat rw [if_neg (by omega)]
        simp only [scanLiteral, List.cons_append, hnone]

theorem scanAtom_append {s r : PyStr} {v : Json} (q : PyStr) (h : scanAtom s = .ok (v, r))
    (hr : Stops r) : scanAtom (s ++ q) = .ok (v, r ++ q) := by
  unfold scanAtom at h ⊢
  cases hl : scanLiteral s with
  | some out =>
      simp only [hl] at h
      obtain rfl := Except.ok.inj h
      simp only [scanLiteral_append q hl]
  | none =>
      simp only [hl] at h
      cases hn : scanNumber s with
      | none =>
          simp only [hn] at h
          cases h
      | some out =>
          simp only [hn] at h
          obtain rfl := Except.ok.inj h
          simp only [scanLiteral_number q hn, scanNumber_append q hn hr]

theorem scanUnit_append {s r : PyStr} {n : ℕ} (q : PyStr) (h : scanUnit s = some (n, r)) :
    scanUnit (s ++ q) = some (n, r ++ q) := by
  match s, h with
  | b :: u :: x₃ :: x₂ :: x₁ :: x₀ :: s, h =>
      simp only [scanUnit, List.cons_append] at h ⊢
      split_ifs at h ⊢ with hb
      obtain ⟨k, hk, heq⟩ := Option.map_eq_some_iff.mp h
      obtain ⟨rfl, rfl⟩ := Prod.mk.inj heq
      rw [hk, Option.map_some]

theorem scanUnit_of_ne_backslash {c : CodePoint} (hc : c ≠ backslash) (s : PyStr) :
    scanUnit (c :: s) = none := by
  unfold scanUnit
  split
  · next heq =>
      obtain ⟨rfl, -⟩ := List.cons.inj heq
      rw [if_neg fun h => hc h.1]
  · rfl

theorem scanUnit_of_ne_u {b e : CodePoint} (he : e.val ≠ 0x75) (s : PyStr) :
    scanUnit (b :: e :: s) = none := by
  unfold scanUnit
  split
  · next heq =>
      obtain ⟨-, heq⟩ := List.cons.inj heq
      obtain ⟨rfl, -⟩ := List.cons.inj heq
      rw [if_neg fun h => he h.2]
  · rfl

theorem unescape_u {c : CodePoint} (h : c.val = 0x75) : unescape c = none := by
  have hne : ∀ d : CodePoint, d.val ≠ 0x75 → c ≠ d := by
    rintro d hd rfl
    exact hd h
  rw [unescape, if_neg (hne quote (by decide)), if_neg (hne backslash (by decide))]
  repeat rw [if_neg (by omega)]

/-- Where the rest of a string can be read, the look ahead for a second surrogate sees the
same in a longer text. -/
theorem scanUnit_none_append {s : PyStr} {n : ℕ} {out : PyStr × PyStr} (q : PyStr)
    (hs : scanString n s = some out) (h : scanUnit s = none) : scanUnit (s ++ q) = none := by
  cases n with
  | zero => cases hs
  | succ n =>
      cases s with
      | nil => cases hs
      | cons c s =>
          by_cases hc : c = backslash
          · subst hc
            simp only [scanString, scanChar, h, if_true, show backslash ≠ quote by decide,
              if_false] at hs
            cases s with
            | nil => cases hs
            | cons e s =>
                refine scanUnit_of_ne_u (fun he => ?_) _
                simp only [unescape_u he, Option.map_none] at hs
                cases hs
          · exact scanUnit_of_ne_backslash hc _

theorem scanChar_append {s r : PyStr} {x : CodePoint} {n : ℕ} {out : PyStr × PyStr} (q : PyStr)
    (h : scanChar s = some (x, r)) (hr : scanString n r = some out) :
    scanChar (s ++ q) = some (x, r ++ q) := by
  cases s with
  | nil => cases h
  | cons c s =>
      simp only [scanChar, List.cons_append] at h ⊢
      by_cases hc : c = backslash
      · rw [if_pos hc] at h ⊢
        cases hu : scanUnit (c :: s) with
        | some unit =>
            have hu' := scanUnit_append q hu
            rw [List.cons_append] at hu'
            simp only [hu, hu'] at h ⊢
            cases hu₂ : scanUnit unit.2 with
            | some unit₂ =>
                simp only [hu₂, scanUnit_append q hu₂] at h ⊢
                split_ifs at h ⊢ <;>
                · obtain ⟨rfl, rfl⟩ := Prod.mk.inj (Option.some.inj h)
                  rfl
            | none =>
                simp only [hu₂] at h
                obtain ⟨rfl, rfl⟩ := Prod.mk.inj (Option.some.inj h)
                simp only [scanUnit_none_append q hr hu₂]
        | none =>
            simp only [hu] at h
            cases s with
            | nil => cases h
            | cons e s =>
                obtain ⟨y, hy, heq⟩ := Option.map_eq_some_iff.mp h
                obtain ⟨rfl, rfl⟩ := Prod.mk.inj heq
                have hne : e.val ≠ 0x75 := fun he => by
                  rw [unescape_u he] at hy
                  cases hy
                simp only [List.cons_append, scanUnit_of_ne_u hne, hy, Option.map_some]
      · rw [if_neg hc] at h ⊢
        split_ifs at h ⊢
        obtain ⟨rfl, rfl⟩ := Prod.mk.inj (Option.some.inj h)
        rfl

/-- A string that was read to its closing quote is read from any longer text, and with any
larger bound. -/
theorem scanString_append {n : ℕ} {s x r : PyStr} (q : PyStr)
    (h : scanString n s = some (x, r)) :
    ∀ m, n ≤ m → scanString m (s ++ q) = some (x, r ++ q) := by
  induction n generalizing s x with
  | zero => cases h
  | succ n ih =>
      intro m hm
      obtain ⟨m, rfl⟩ : ∃ k, m = k + 1 := ⟨m - 1, by omega⟩
      cases s with
      | nil => cases h
      | cons c s =>
          simp only [scanString, List.cons_append] at h ⊢
          split_ifs at h ⊢ with hc
          · obtain ⟨rfl, rfl⟩ := Prod.mk.inj (Option.some.inj h)
            rfl
          · cases hchar : scanChar (c :: s) with
            | none =>
                simp only [hchar] at h
                cases h
            | some out =>
                simp only [hchar] at h
                obtain ⟨⟨y, r'⟩, hy, heq⟩ := Option.map_eq_some_iff.mp h
                obtain ⟨rfl, rfl⟩ := Prod.mk.inj heq
                have hchar' := scanChar_append q hchar hy
                rw [List.cons_append] at hchar'
                simp only [hchar', ih hy m (by omega), Option.map_some]

theorem scanString_length_append {s x r : PyStr} (q : PyStr)
    (h : scanString s.length s = some (x, r)) :
    scanString (s ++ q).length (s ++ q) = some (x, r ++ q) :=
  scanString_append q h _ (by simp)

/-- A scanner that reads nothing from nothing, and the same value from a longer text if a
stop follows it. -/
structure Extends (value : Scan) : Prop where
  nil : ∀ out, value [] ≠ .ok out
  append : ∀ {s r : PyStr} {v : Json} (q : PyStr), value s = .ok (v, r) → Stops r →
    value (s ++ q) = .ok (v, r ++ q)

theorem Extends.skipWs {value : Scan} (hvalue : Extends value) {s r : PyStr} {v : Json}
    (q : PyStr) (h : value (skipWs s) = .ok (v, r)) (hr : Stops r) :
    value (skipWs (s ++ q)) = .ok (v, r ++ q) := by
  have hne : Json.skipWs s ≠ [] := fun hnil => hvalue.nil _ (hnil ▸ h)
  rw [skipWs_append_of_ne_nil q hne]
  exact hvalue.append q h hr

theorem scanMember_append {value : Scan} (hvalue : Extends value) {s key r : PyStr} {v : Json}
    (q : PyStr) (h : scanMember value s = .ok (key, v, r)) (hr : Stops r) :
    scanMember value (s ++ q) = .ok (key, v, r ++ q) := by
  cases s with
  | nil => cases h
  | cons c s =>
      simp only [scanMember, List.cons_append] at h ⊢
      split_ifs at h ⊢
      cases hkey : scanString s.length s with
      | none =>
          simp only [hkey] at h
          cases h
      | some out =>
          simp only [hkey, scanString_length_append q hkey] at h ⊢
          cases hcolon : skipWs out.2 with
          | nil =>
              simp only [hcolon] at h
              cases h
          | cons c₁ s₁ =>
              simp only [hcolon, skipWs_append q hcolon] at h ⊢
              split_ifs at h ⊢
              cases hv : value (skipWs s₁) with
              | error e =>
                  rw [hv] at h
                  cases h
              | ok out₁ =>
                  rw [hv] at h
                  obtain ⟨rfl, heq⟩ := Prod.mk.inj (Except.ok.inj h)
                  subst heq
                  rw [hvalue.skipWs q hv hr]
                  rfl

theorem isStop_separator {c : CodePoint} (h : c = rbrace ∨ c = rbracket ∨ c = comma) :
    isStop c = true := by
  rcases h with rfl | rfl | rfl <;> decide

theorem scanMembers_nil_ne {value : Scan} {n : ℕ} {members : List (PyStr × Json)}
    {out : Json × PyStr} : scanMembers value n members [] ≠ .ok out := by
  cases n <;> nofun

theorem scanMembers_append {value : Scan} (hvalue : Extends value) {n : ℕ}
    {members : List (PyStr × Json)} {s r : PyStr} {v : Json} (q : PyStr)
    (h : scanMembers value n members s = .ok (v, r)) :
    ∀ m, n ≤ m → scanMembers value m members (s ++ q) = .ok (v, r ++ q) := by
  induction n generalizing members s with
  | zero => cases h
  | succ n ih =>
      intro m hm
      obtain ⟨m, rfl⟩ : ∃ k, m = k + 1 := ⟨m - 1, by omega⟩
      simp only [scanMembers] at h ⊢
      cases hmember : scanMember value s with
      | error e =>
          simp only [hmember] at h
          cases h
      | ok out =>
          obtain ⟨key, w, s₁⟩ := out
          simp only [hmember] at h
          cases hsep : skipWs s₁ with
          | nil =>
              simp only [hsep] at h
              cases h
          | cons c s₂ =>
              simp only [hsep] at h
              have hstop : c = rbrace ∨ c = comma → Stops s₁ := fun hc =>
                stops_of_skipWs hsep (isStop_separator (hc.imp_right .inr))
              split_ifs at h with hbrace hcomma
              · obtain ⟨rfl, rfl⟩ := Prod.mk.inj (Except.ok.inj h)
                simp only [scanMember_append hvalue q hmember (hstop (.inl hbrace)),
                  skipWs_append q hsep, if_pos hbrace]
              · simp only [scanMember_append hvalue q hmember (hstop (.inr hcomma)),
                  skipWs_append q hsep, if_neg hbrace, if_pos hcomma]
                have hne : skipWs s₂ ≠ [] := fun hnil => scanMembers_nil_ne (hnil ▸ h)
                rw [skipWs_append_of_ne_nil q hne]
                exact ih h m (by omega)

theorem scanItems_nil_ne {value : Scan} (hvalue : Extends value) {n : ℕ} {items : List Json}
    {out : Json × PyStr} : scanItems value n items [] ≠ .ok out := by
  intro h
  cases n with
  | zero => cases h
  | succ n =>
      cases hv : value [] with
      | error e =>
          simp only [scanItems, hv] at h
          cases h
      | ok out => exact hvalue.nil out hv

theorem scanItems_append {value : Scan} (hvalue : Extends value) {n : ℕ} {items : List Json}
    {s r : PyStr} {v : Json} (q : PyStr) (h : scanItems value n items s = .ok (v, r)) :
    ∀ m, n ≤ m → scanItems value m items (s ++ q) = .ok (v, r ++ q) := by
  induction n generalizing items s with
  | zero => cases h
  | succ n ih =>
      intro m hm
      obtain ⟨m, rfl⟩ : ∃ k, m = k + 1 := ⟨m - 1, by omega⟩
      simp only [scanItems] at h ⊢
      cases hitem : value s with
      | error e =>
          simp only [hitem] at h
          cases h
      | ok out =>
          obtain ⟨w, s₁⟩ := out
          simp only [hitem] at h
          cases hsep : skipWs s₁ with
          | nil =>
              simp only [hsep] at h
              cases h
          | cons c s₂ =>
              simp only [hsep] at h
              have hstop : c = rbracket ∨ c = comma → Stops s₁ := fun hc =>
                stops_of_skipWs hsep (isStop_separator (.inr hc))
              split_ifs at h with hbracket hcomma
              · obtain ⟨rfl, rfl⟩ := Prod.mk.inj (Except.ok.inj h)
                simp only [hvalue.append q hitem (hstop (.inl hbracket)),
                  skipWs_append q hsep, if_pos hbracket]
              · simp only [hvalue.append q hitem (hstop (.inr hcomma)),
                  skipWs_append q hsep, if_neg hbracket, if_pos hcomma]
                have hne : skipWs s₂ ≠ [] := fun hnil => scanItems_nil_ne hvalue (hnil ▸ h)
                rw [skipWs_append_of_ne_nil q hne]
                exact ih h m (by omega)

/-- The text opens an object. -/
def OpensObject (s : PyStr) : Prop := ∃ t, s = lbrace :: t

theorem scanOnce_append {value : Option Scan} (hvalue : ∀ f ∈ value, Extends f) {s r : PyStr}
    {v : Json} (q : PyStr) (h : scanOnce value s = .ok (v, r)) (hr : Stops r ∨ OpensObject s) :
    scanOnce value (s ++ q) = .ok (v, r ++ q) := by
  cases s with
  | nil => cases h
  | cons c s =>
      simp only [scanOnce, List.cons_append] at h ⊢
      split_ifs at h ⊢ with hquote hbrace hbracket
      · cases hs : scanString s.length s with
        | none =>
            simp only [hs] at h
            cases h
        | some out =>
            simp only [hs] at h
            obtain ⟨rfl, rfl⟩ := Prod.mk.inj (Except.ok.inj h)
            simp only [scanString_length_append q hs]
      · cases value with
        | none => cases h
        | some f =>
            cases hs : skipWs s with
            | nil =>
                simp only [hs] at h
                cases h
            | cons c₁ s₁ =>
                simp only [hs, skipWs_append q hs] at h ⊢
                split_ifs at h ⊢
                · obtain ⟨rfl, rfl⟩ := Prod.mk.inj (Except.ok.inj h)
                  rfl
                · exact scanMembers_append (hvalue f rfl) q h _ (by simp)
      · cases value with
        | none => cases h
        | some f =>
            cases hs : skipWs s with
            | nil =>
                simp only [hs] at h
                cases h
            | cons c₁ s₁ =>
                simp only [hs, skipWs_append q hs] at h ⊢
                split_ifs at h ⊢
                · obtain ⟨rfl, rfl⟩ := Prod.mk.inj (Except.ok.inj h)
                  rfl
                · exact scanItems_append (hvalue f rfl) q h _ (by simp)
      · refine scanAtom_append q h (hr.resolve_right ?_)
        rintro ⟨t, heq⟩
        exact hbrace (List.cons.inj heq).1

theorem scan_extends (depth : ℕ) : Extends (scan depth) := by
  induction depth with
  | zero => exact ⟨nofun, fun q h hr => scanOnce_append (by simp) q h (.inl hr)⟩
  | succ depth ih =>
      refine ⟨nofun, fun q h hr => scanOnce_append ?_ q h (.inl hr)⟩
      rintro f hf
      obtain rfl := Option.some.inj hf
      exact ih

/-- **What was read from the front of a text is read from the front of a longer one**, if a
stop follows it or it is an object. -/
theorem scan_append {depth : ℕ} {s r : PyStr} {v : Json} (q : PyStr)
    (h : scan depth s = .ok (v, r)) (hr : Stops r ∨ OpensObject s) :
    scan depth (s ++ q) = .ok (v, r ++ q) := by
  cases depth with
  | zero => exact scanOnce_append (by simp) q h hr
  | succ depth =>
      refine scanOnce_append ?_ q h hr
      rintro f hf
      obtain rfl := Option.some.inj hf
      exact scan_extends depth

/-! ## Strings -/

/-- No high surrogate stands before a low one: read back, the two would be one character.
Strings with a UTF-8 form have no surrogates at all. -/
def NoSurrogatePair (s : PyStr) : Prop :=
  s.IsChain fun c d => ¬ (isHigh c.val = true ∧ isLow d.val = true)

/-- Printable ASCII, the characters `json.dumps` writes. -/
def IsPrintable (c : CodePoint) : Prop := 0x20 ≤ c.val ∧ c.val ≤ 0x7E

instance (c : CodePoint) : Decidable (IsPrintable c) :=
  inferInstanceAs (Decidable (0x20 ≤ c.val ∧ c.val ≤ 0x7E))

theorem isPrintable_hexDigit {n : ℕ} (h : n < 16) : IsPrintable (hexDigit n) := by
  revert n
  unfold IsPrintable
  decide

theorem unhex4_hex4 {n : ℕ} (h : n < 0x10000) :
    unhex4 (hexDigit (n / 0x1000 % 16)) (hexDigit (n / 0x100 % 16)) (hexDigit (n / 0x10 % 16))
      (hexDigit (n % 16)) = some n := by
  have digit : ∀ m, hexVal (hexDigit (m % 16)) = some (m % 16) := fun m =>
    hexVal_hexDigit (Nat.mod_lt m (by decide))
  simp only [unhex4, digit, Option.some.injEq]
  omega

theorem scanUnit_escapeUnit {n : ℕ} (h : n < 0x10000) (t : PyStr) :
    scanUnit (escapeUnit n ++ t) = some (n, t) := by
  simp only [escapeUnit, hex4, List.cons_append, List.nil_append, scanUnit]
  rw [if_pos ⟨trivial, rfl⟩, unhex4_hex4 h, Option.map_some]

theorem ofUnit_val (c : CodePoint) : ofUnit c.val = c :=
  Fin.ext (Nat.mod_eq_of_lt c.isLt)

theorem scanChar_short {e x : CodePoint} (he : unescape e = some x) (t : PyStr) :
    scanChar (backslash :: e :: t) = some (x, t) := by
  have hu : e.val ≠ 0x75 := fun hval => by
    rw [unescape_u hval] at he
    cases he
  simp only [scanChar, if_true, scanUnit_of_ne_u hu, he, Option.map_some]

theorem scanChar_unit {n : ℕ} (hn : n < 0x10000) {t : PyStr}
    (hlook : isHigh n = true → ∀ m r, scanUnit t = some (m, r) → isLow m = false) :
    scanChar (escapeUnit n ++ t) = some (ofUnit n, t) := by
  have hunit := scanUnit_escapeUnit hn t
  simp only [escapeUnit, List.cons_append] at hunit ⊢
  simp only [scanChar, if_true, hunit]
  cases ht : scanUnit t with
  | none => rfl
  | some out =>
      have hlow : (isHigh n && isLow out.1) = false := by
        rw [Bool.and_eq_false_imp]
        exact fun hhigh => hlook hhigh out.1 out.2 ht
      simp only [hlow, Bool.false_eq_true, if_false]

theorem scanChar_pair {h l : ℕ} (hh : isHigh h = true) (hl : isLow l = true) (t : PyStr) :
    scanChar (escapeUnit h ++ (escapeUnit l ++ t)) = some (joinSurrogates h l, t) := by
  have hh' : h < 0x10000 := by
    simp only [isHigh, Bool.and_eq_true, decide_eq_true_eq] at hh
    omega
  have hl' : l < 0x10000 := by
    simp only [isLow, Bool.and_eq_true, decide_eq_true_eq] at hl
    omega
  have hunit := scanUnit_escapeUnit hh' (escapeUnit l ++ t)
  rw [escapeUnit, List.cons_append, List.cons_append] at hunit ⊢
  simp only [scanChar, if_true, hunit, scanUnit_escapeUnit hl', hh, hl, Bool.and_true]

/-- **Reading back one character.** -/
theorem scanChar_escapeChar {c : CodePoint} {t : PyStr}
    (hlook : isHigh c.val = true → ∀ m r, scanUnit t = some (m, r) → isLow m = false) :
    scanChar (escapeChar c ++ t) = some (c, t) := by
  have hlt := c.isLt
  have short : ∀ {e d : CodePoint}, unescape e = some d → c.val = d.val →
      scanChar ([backslash, e] ++ t) = some (c, t) := fun he hval =>
    (Fin.ext hval : c = _) ▸ scanChar_short he t
  unfold escapeChar
  split_ifs with h1 h2 h3 h4 h5 h6 h7 h8 h9
  · exact short rfl (congrArg Fin.val h1)
  · exact short rfl (congrArg Fin.val h2)
  · exact short rfl h3
  · exact short rfl h4
  · exact short rfl h5
  · exact short rfl h6
  · exact short rfl h7
  · rw [List.singleton_append]
    simp only [scanChar, if_neg h2]
    rw [if_neg (by omega)]
  · rw [scanChar_unit h9 hlook, ofUnit_val]
  · rw [List.append_assoc, scanChar_pair]
    · refine congrArg (fun d => some (d, t)) (Fin.ext ?_)
      simp only [joinSurrogates, ofUnit, Fin.ofNat]
      omega
    · simp only [isHigh, Bool.and_eq_true, decide_eq_true_eq]
      omega
    · simp only [isLow, Bool.and_eq_true, decide_eq_true_eq]
      omega

/-- A written character does not start with a quote. -/
theorem escapeChar_cons (c : CodePoint) : ∃ d l, escapeChar c = d :: l ∧ d ≠ quote := by
  have hne : backslash ≠ quote := by decide
  unfold escapeChar escapeUnit
  split_ifs with h1 <;> first | exact ⟨_, _, rfl, hne⟩ | exact ⟨_, _, rfl, h1⟩

theorem isLow_of_scanUnit_escapeChar {c : CodePoint} {t r : PyStr} {n : ℕ}
    (h : scanUnit (escapeChar c ++ t) = some (n, r)) (hn : isLow n = true) :
    isLow c.val = true := by
  have hlt := c.isLt
  have short : ∀ {e : CodePoint}, e.val ≠ 0x75 →
      scanUnit ([backslash, e] ++ t) = some (n, r) → isLow c.val = true := fun he h => by
    rw [List.cons_append, List.cons_append, scanUnit_of_ne_u he] at h
    cases h
  unfold escapeChar at h
  split_ifs at h with h1 h2 h3 h4 h5 h6 h7 h8 h9
  · exact short (by decide) h
  · exact short (by decide) h
  · exact short (by decide) h
  · exact short (by decide) h
  · exact short (by decide) h
  · exact short (by decide) h
  · exact short (by decide) h
  · rw [List.singleton_append, scanUnit_of_ne_backslash h2] at h
    cases h
  · rw [scanUnit_escapeUnit h9] at h
    obtain ⟨rfl, -⟩ := Prod.mk.inj (Option.some.inj h)
    exact hn
  · rw [List.append_assoc, scanUnit_escapeUnit (by omega)] at h
    obtain ⟨rfl, -⟩ := Prod.mk.inj (Option.some.inj h)
    simp only [isLow, Bool.and_eq_true, decide_eq_true_eq] at hn
    omega

/-- **Reading back a string**, with any bound above its length. -/
theorem scanString_escape {s : PyStr} (hs : NoSurrogatePair s) (t : PyStr) :
    ∀ n, s.length < n → scanString n (s.flatMap escapeChar ++ quote :: t) = some (s, t) := by
  induction s with
  | nil =>
      intro n hn
      obtain ⟨n, rfl⟩ : ∃ k, n = k + 1 := ⟨n - 1, by simp at hn; omega⟩
      simp [scanString]
  | cons c s ih =>
      intro n hn
      rw [List.length_cons] at hn
      obtain ⟨n, rfl⟩ : ∃ k, n = k + 1 := ⟨n - 1, by omega⟩
      have htail : NoSurrogatePair s := List.IsChain.tail hs
      have hlook : isHigh c.val = true →
          ∀ m r, scanUnit (s.flatMap escapeChar ++ quote :: t) = some (m, r) →
            isLow m = false := by
        intro hhigh m r hunit
        by_contra hlow
        rw [Bool.not_eq_false] at hlow
        cases s with
        | nil =>
            rw [List.flatMap_nil, List.nil_append, scanUnit_of_ne_backslash (by decide)] at hunit
            cases hunit
        | cons d s =>
            rw [List.flatMap_cons, List.append_assoc] at hunit
            exact (List.isChain_cons_cons.mp hs).1
              ⟨hhigh, isLow_of_scanUnit_escapeChar hunit hlow⟩
      have hread := scanChar_escapeChar hlook
      obtain ⟨d, l, hd, hquote⟩ := escapeChar_cons c
      rw [List.flatMap_cons, List.append_assoc]
      rw [hd, List.cons_append] at hread ⊢
      simp only [scanString, if_neg hquote, hread, ih htail n (by omega), Option.map_some]

theorem length_le_escape (s : PyStr) : s.length ≤ (s.flatMap escapeChar).length := by
  induction s with
  | nil => exact le_rfl
  | cons c s ih =>
      obtain ⟨d, l, hd, -⟩ := escapeChar_cons c
      rw [List.flatMap_cons, List.length_append, hd, List.length_cons, List.length_cons]
      omega

theorem scanString_dumpsStr {s : PyStr} (hs : NoSurrogatePair s) (t : PyStr) :
    scanString (s.flatMap escapeChar ++ quote :: t).length (s.flatMap escapeChar ++ quote :: t)
      = some (s, t) := by
  refine scanString_escape hs t _ ?_
  have := length_le_escape s
  rw [List.length_append, List.length_cons]
  omega

theorem dumpsStr_append (s t : PyStr) :
    dumpsStr s ++ t = quote :: (s.flatMap escapeChar ++ quote :: t) := by
  simp [dumpsStr]

/-! ## Numbers and literals -/

theorem strNat_of_lt {n : ℕ} (h : n < 10) : strNat n = [CodePoint.ofChar n.digitChar] := by
  rw [strNat, Nat.toDigits_of_lt_base h, List.map_singleton]

theorem strNat_of_le {n : ℕ} (h : 10 ≤ n) :
    strNat n = strNat (n / 10) ++ [CodePoint.ofChar (n % 10).digitChar] := by
  rw [strNat, Nat.toDigits_of_base_le (by decide) h, List.map_append, List.map_singleton, strNat]

theorem isDigit_strNat {n : ℕ} {c : CodePoint} (h : c ∈ strNat n) : isDigit c = true := by
  simpa [isDigit] using isDigit_of_mem_strNat h

theorem ofDigits_strNat (n : ℕ) : ofDigits (strNat n) = n := by
  have h := @Nat.ofDigitChars_ten_toDigits n
  rw [ofDigits, strNat, List.foldl_map]
  exact h

/-- Leading zeros change nothing. -/
theorem ofDigits_leftpad (width n : ℕ) :
    ofDigits ((strNat n).leftpad width (.ofChar '0')) = n := by
  have hzeros : ∀ k, ofDigits (List.replicate k (.ofChar '0') ++ strNat n) = n := by
    intro k
    induction k with
    | zero => exact ofDigits_strNat n
    | succ k ih => exact ih
  exact hzeros _

/-- A positive number does not start with a zero. -/
theorem strNat_cons {n : ℕ} (h : 0 < n) : ∃ c t, strNat n = c :: t ∧ c.val ≠ 0x30 := by
  induction n using Nat.strongRecOn with
  | ind n ih =>
      rcases Nat.lt_or_ge n 10 with hlt | hge
      · refine ⟨_, _, strNat_of_lt hlt, ?_⟩
        rw [CodePoint.val_ofChar, Nat.toNat_digitChar_of_lt_ten hlt]
        omega
      · obtain ⟨c, t, heq, hc⟩ := ih (n / 10) (by omega) (by omega)
        exact ⟨c, _, by rw [strNat_of_le hge, heq, List.cons_append], hc⟩

/-- A text that a number does not go on with. -/
theorem Stops.not_isDigit {c : CodePoint} {t : PyStr} (h : Stops (c :: t)) :
    isDigit c = false ∧ c.val ≠ 0x2E ∧ ¬ (c.val = 0x65 ∨ c.val = 0x45) := by
  obtain ⟨c', t', heq, hstop⟩ := h
  obtain ⟨rfl, rfl⟩ := List.cons.inj heq
  refine ⟨?_, fun hc => ?_, fun hc => ?_⟩
  · by_contra hd
    rw [isStop_number (.inl (Bool.not_eq_false _ ▸ hd))] at hstop
    cases hstop
  · rw [isStop_number (.inr (.inl hc))] at hstop
    cases hstop
  · rw [isStop_number (.inr (.inr hc))] at hstop
    cases hstop

theorem digits_span {s t : PyStr} (hs : ∀ c ∈ s, isDigit c = true) (ht : Stops t) :
    (s ++ t).takeWhile isDigit = s ∧ (s ++ t).dropWhile isDigit = t := by
  obtain ⟨c, t, rfl, hc⟩ := ht
  have hdigit := (Stops.not_isDigit ⟨c, t, rfl, hc⟩).1
  rw [List.takeWhile_append_of_pos hs, List.dropWhile_append_of_pos hs]
  simp [hdigit]

theorem scanNat_strNat (n : ℕ) {t : PyStr} (ht : Stops t) :
    scanNat (strNat n ++ t) = some (strNat n, t) := by
  rcases Nat.eq_zero_or_pos n with rfl | hpos
  · rfl
  · obtain ⟨c, s, heq, hc⟩ := strNat_cons hpos
    have hdigit : ∀ d ∈ c :: s, isDigit d = true := fun d hd => isDigit_strNat (heq ▸ hd)
    obtain ⟨htake, hdrop⟩ := digits_span (fun d hd => hdigit d (List.mem_cons_of_mem c hd)) ht
    rw [heq, List.cons_append, scanNat, if_neg hc, if_pos (hdigit c List.mem_cons_self), htake,
      hdrop]

theorem scanFrac_stops {t : PyStr} (ht : Stops t) : scanFrac t = ([], t) := by
  match t, ht with
  | [], _ => rfl
  | [_], _ => rfl
  | c :: d :: t, ht => simp [scanFrac, ht.not_isDigit.2.1]

theorem scanExp_stops {t : PyStr} (ht : Stops t) : scanExp t = ([], t) := by
  match t, ht with
  | [], _ => rfl
  | [_], _ => rfl
  | c :: d :: t, ht => simp [scanExp, ht.not_isDigit.2.2]

theorem scanNumber_strInt (n : ℤ) {t : PyStr} (ht : Stops t) :
    scanNumber (strInt n ++ t) = some (.int n, t) := by
  have hsign : ∀ m, scanSign (strNat m ++ t) = ([], strNat m ++ t) := by
    intro m
    obtain ⟨c, s, heq⟩ := List.exists_cons_of_ne_nil (strNat_ne_nil m)
    have hc := (isDigit_of_mem_strNat (n := m) (heq ▸ List.mem_cons_self : c ∈ strNat m)).1
    rw [heq, List.cons_append, scanSign, if_neg (by omega)]
  cases n with
  | ofNat m =>
      simp only [scanNumber, strInt, hsign, scanNat_strNat m ht, scanFrac_stops ht,
        scanExp_stops ht, and_self, if_true, ofDigits_strNat]
      rfl
  | negSucc m =>
      have hminus : scanSign (strInt (.negSucc m) ++ t)
          = ([CodePoint.ofChar '-'], strNat (m + 1) ++ t) := rfl
      simp only [scanNumber, hminus, scanNat_strNat (m + 1) ht, scanFrac_stops ht,
        scanExp_stops ht, and_self, if_true, ofDigits_strNat, List.cons_ne_nil, if_false]
      rfl

theorem scanAtom_strInt (n : ℤ) {t : PyStr} (ht : Stops t) :
    scanAtom (strInt n ++ t) = .ok (.int n, t) := by
  have hnumber := scanNumber_strInt n ht
  have hliteral := scanLiteral_number [] hnumber
  rw [List.append_nil] at hliteral
  simp only [scanAtom, hliteral, hnumber]

theorem stripLiteral_self (l t : PyStr) : stripLiteral l (l ++ t) = some t := by
  rw [stripLiteral, if_pos (List.isPrefixOf_iff_prefix.mpr (List.prefix_append l t)),
    List.drop_left]

theorem scanAtom_literal {c : CodePoint} {l : PyStr} {v : Json}
    (h : literalOf c = some (c :: l, v)) (t : PyStr) :
    scanAtom (c :: l ++ t) = .ok (v, t) := by
  have hstrip := stripLiteral_self (c :: l) t
  simp only [List.cons_append] at hstrip ⊢
  simp only [scanAtom, scanLiteral, h, hstrip, Option.map_some]

/-! ## Values -/

/-- The values the writer and the reader agree on, within `depth` nested containers: no
floats, no key twice, and strings without surrogate pairs. -/
def Writable : ℕ → Json → Prop
  | _, .null | _, .bool _ | _, .int _ => True
  | _, .float _ => False
  | _, .str s => NoSurrogatePair s
  | 0, .arr _ | 0, .obj _ => False
  | depth + 1, .arr items => ∀ item ∈ items, Writable depth item
  | depth + 1, .obj members =>
      (members.map Prod.fst).Nodup ∧
        ∀ m ∈ members, NoSurrogatePair m.1 ∧ Writable depth m.2

theorem Writable.mono {depth depth' : ℕ} {v : Json} (h : Writable depth v)
    (hle : depth ≤ depth') : Writable depth' v := by
  induction depth generalizing v depth' with
  | zero =>
      cases v with
      | arr items => exact h.elim
      | obj members => exact h.elim
      | _ => cases depth' <;> exact h
  | succ depth ih =>
      obtain ⟨depth', rfl⟩ : ∃ k, depth' = k + 1 := ⟨depth' - 1, by omega⟩
      cases v with
      | arr items => exact fun item hitem => ih (h item hitem) (by omega)
      | obj members =>
          exact ⟨h.1, fun m hm => ⟨(h.2 m hm).1, ih (h.2 m hm).2 (by omega)⟩⟩
      | _ => exact h

/-- Strings without surrogates have no pairs of them. -/
theorem noSurrogatePair_of_isSurrogate {s : PyStr} (h : ∀ c ∈ s, c.isSurrogate = false) :
    NoSurrogatePair s := by
  induction s with
  | nil => exact .nil
  | cons c s ih =>
      refine List.isChain_cons.mpr ⟨fun d _ hpair => ?_, ih fun d hd =>
        h d (List.mem_cons_of_mem c hd)⟩
      have hc := h c List.mem_cons_self
      have hhigh := hpair.1
      simp only [CodePoint.isSurrogate, isHigh, Bool.and_eq_false_imp, Bool.and_eq_true,
        decide_eq_true_eq, decide_eq_false_iff_not] at hc hhigh
      omega

/-- Strings with a UTF-8 form have no surrogates. -/
theorem noSurrogatePair_of_encodeUtf8 {s : PyStr} {b : Bytes} (h : encodeUtf8 s = some b) :
    NoSurrogatePair s := by
  refine noSurrogatePair_of_isSurrogate fun c hc => ?_
  induction s generalizing b with
  | nil => cases hc
  | cons d s ih =>
      obtain ⟨b₀, b₁, hd, hs, -⟩ := encodeUtf8_cons.mp h
      rcases List.mem_cons.mp hc with rfl | hc
      · by_contra hsur
        rw [Bool.not_eq_false] at hsur
        have hrange : 0xD800 ≤ c.val ∧ c.val ≤ 0xDFFF := by
          simpa [CodePoint.isSurrogate] using hsur
        simp only [encodeCodePoint, hsur, if_true] at hd
        rw [if_neg (by omega), if_neg (by omega)] at hd
        cases hd
      · exact ih hs hc

theorem noSurrogatePair_of_printable {s : PyStr} (h : ∀ c ∈ s, IsPrintable c) :
    NoSurrogatePair s := by
  refine noSurrogatePair_of_isSurrogate fun c hc => ?_
  have := (h c hc).2
  simp only [CodePoint.isSurrogate, Bool.and_eq_false_imp, decide_eq_true_eq,
    decide_eq_false_iff_not]
  omega

theorem isPrintable_of_isLowerHex {s : PyStr} (h : isLowerHex s = true) :
    ∀ c ∈ s, IsPrintable c := by
  intro c hc
  have hdigit := List.all_eq_true.mp h c hc
  simp only [Bool.or_eq_true, Bool.and_eq_true, decide_eq_true_eq] at hdigit
  constructor <;> omega

/-- Hex digits can be written. -/
theorem noSurrogatePair_of_isLowerHex {s : PyStr} (h : isLowerHex s = true) : NoSurrogatePair s :=
  noSurrogatePair_of_printable (isPrintable_of_isLowerHex h)

/-- So can a literal of printable characters. -/
theorem noSurrogatePair_str {s : PyStr} (h : s.all (fun c => IsPrintable c) = true) :
    NoSurrogatePair s :=
  noSurrogatePair_of_printable fun c hc => of_decide_eq_true (List.all_eq_true.mp h c hc)

/-- An object with keys from a list that has each once. -/
theorem writable_obj {depth : ℕ} {keys : List PyStr} {members : List (PyStr × Json)}
    (hnodup : keys.Nodup) (hprint : ∀ key ∈ keys, key.all (fun c => IsPrintable c) = true)
    (hkeys : (members.map Prod.fst).Sublist keys) (hvalues : ∀ m ∈ members, Writable depth m.2) :
    Writable (depth + 1) (.obj members) := by
  refine ⟨hnodup.sublist hkeys, fun m hm => ⟨?_, hvalues m hm⟩⟩
  have hkey := hprint m.1 (hkeys.subset (List.mem_map_of_mem hm))
  exact noSurrogatePair_of_printable fun c hc => of_decide_eq_true (List.all_eq_true.mp hkey c hc)

/-- An object that holds no container can be written. -/
theorem writable_flat [Interpreter] {members : List (PyStr × Json)} (keys : List PyStr)
    (hkeys : keys.Nodup) (heq : members.map Prod.fst = keys)
    (h : ∀ m ∈ members, NoSurrogatePair m.1 ∧ Writable 0 m.2) :
    Writable recursionLimit (.obj members) :=
  @Writable.mono 1 _ _ ⟨heq ▸ hkeys, h⟩ (le_trans (by decide) Interpreter.recursionLimit_large)

theorem skipWs_cons {c : CodePoint} (h : isWs c = false) (t : PyStr) :
    skipWs (c :: t) = c :: t :=
  List.dropWhile_cons_of_neg (by simp [h])

theorem skipWs_gap (sep : Separators) {s : PyStr} (h : skipWs s = s) :
    skipWs (sep.gap ++ s) = s := by
  cases sep with
  | compact => exact h
  | spaced => exact h

theorem setItem_of_notMem {key : PyStr} {members : List (PyStr × Json)}
    (h : key ∉ members.map Prod.fst) (v : Json) :
    setItem key v members = members ++ [(key, v)] := by
  induction members with
  | nil => rfl
  | cons m members ih =>
      rw [List.map_cons, List.mem_cons, not_or] at h
      rw [setItem, if_neg (Ne.symm h.1), ih h.2, List.cons_append]

variable [Interpreter] {sep : Separators}

/-- A written value starts with a character of its own. -/
theorem dumps_cons {depth : ℕ} {v : Json} (h : Writable depth v) :
    ∃ c l, dumps sep v = c :: l ∧ isWs c = false ∧ c ≠ rbracket := by
  cases v with
  | null => exact ⟨_, _, rfl, by decide⟩
  | bool b => cases b <;> exact ⟨_, _, rfl, by decide⟩
  | int n =>
      cases n with
      | ofNat m =>
          obtain ⟨c, l, heq⟩ := List.exists_cons_of_ne_nil (strNat_ne_nil m)
          have hdigit := isDigit_of_mem_strNat (n := m) (heq ▸ List.mem_cons_self : c ∈ strNat m)
          refine ⟨c, l, by rw [dumps, strInt, heq], ?_, ?_⟩
          · simp only [isWs, Bool.or_eq_false_iff, beq_eq_false_iff_ne]
            omega
          · rintro rfl
            exact absurd hdigit (by decide)
      | negSucc m => exact ⟨_, _, rfl, by decide⟩
  | float l => cases depth <;> exact h.elim
  | str s => exact ⟨_, _, rfl, by decide⟩
  | arr items => cases items <;> exact ⟨_, _, rfl, by decide⟩
  | obj members => cases members <;> exact ⟨_, _, rfl, by decide⟩

theorem skipWs_dumps {depth : ℕ} {v : Json} (h : Writable depth v) (t : PyStr) :
    skipWs (dumps sep v ++ t) = dumps sep v ++ t := by
  obtain ⟨c, l, heq, hc, -⟩ := @dumps_cons _ sep _ _ h
  rw [heq, List.cons_append]
  exact skipWs_cons hc _

theorem stops_dumpsItems (items : List Json) (t : PyStr) :
    Stops (dumpsItems sep items ++ t) := by
  cases items with
  | nil => exact ⟨rbracket, t, rfl, rfl⟩
  | cons item items => exact ⟨comma, _, rfl, rfl⟩

theorem stops_dumpsMembers (members : List (PyStr × Json)) (t : PyStr) :
    Stops (dumpsMembers sep members ++ t) := by
  cases members with
  | nil => exact ⟨rbrace, t, rfl, rfl⟩
  | cons m members => exact ⟨comma, _, rfl, rfl⟩

/-- The items after one that was read, if the scanner reads each of them. -/
theorem scanItems_dumpsItems {value : Scan} {items : List Json} {t : PyStr}
    (hitems : ∀ item ∈ items, ∀ t, skipWs (dumps sep item ++ t) = dumps sep item ++ t ∧
      (Stops t → value (dumps sep item ++ t) = .ok (item, t))) :
    ∀ (n : ℕ) (read : List Json) (v : Json) (s : PyStr), items.length < n →
      value s = .ok (v, dumpsItems sep items ++ t) →
      scanItems value n read s = .ok (.arr (read.reverse ++ v :: items), t) := by
  induction items with
  | nil =>
      intro n read v s hn hv
      obtain ⟨n, rfl⟩ : ∃ k, n = k + 1 := ⟨n - 1, by rw [List.length_nil] at hn; omega⟩
      simp only [scanItems, hv, dumpsItems, List.singleton_append,
        skipWs_cons (show isWs rbracket = false from rfl), if_true, List.reverse_cons]
  | cons item items ih =>
      intro n read v s hn hv
      rw [List.length_cons] at hn
      obtain ⟨n, rfl⟩ : ∃ k, n = k + 1 := ⟨n - 1, by omega⟩
      obtain ⟨hstart, hread⟩ := hitems item List.mem_cons_self (dumpsItems sep items ++ t)
      have hnext := ih (fun x hx => hitems x (List.mem_cons_of_mem item hx)) n (v :: read) item _
        (by omega) (hread (stops_dumpsItems items t))
      simp only [scanItems, hv, dumpsItems, Separators.item, List.cons_append, List.append_assoc,
        skipWs_cons (show isWs comma = false from rfl),
        if_neg (show comma ≠ rbracket by decide), if_true, skipWs_gap sep hstart, hnext,
        List.reverse_cons, List.nil_append]

theorem scanMember_dumps {value : Scan} {key : PyStr} {v : Json} {t : PyStr}
    (hkey : NoSurrogatePair key) (hstart : skipWs (dumps sep v ++ t) = dumps sep v ++ t)
    (hv : value (dumps sep v ++ t) = .ok (v, t)) :
    scanMember value (dumpsStr key ++ (sep.key ++ (dumps sep v ++ t))) = .ok (key, v, t) := by
  rw [dumpsStr_append]
  simp only [scanMember, if_true, scanString_dumpsStr hkey, Separators.key, List.cons_append,
    skipWs_cons (show isWs colon = false from rfl), skipWs_gap sep hstart, hv]
  rfl

/-- The members after one that was read, if the scanner reads each of them. -/
theorem scanMembers_dumpsMembers {value : Scan} {members : List (PyStr × Json)} {t : PyStr}
    (hmembers : ∀ m ∈ members, ∀ t, Stops t →
      scanMember value (dumpsStr m.1 ++ (sep.key ++ (dumps sep m.2 ++ t))) = .ok (m.1, m.2, t)) :
    ∀ (n : ℕ) (read : List (PyStr × Json)) (key : PyStr) (v : Json) (s : PyStr),
      members.length < n → (read.map Prod.fst ++ key :: members.map Prod.fst).Nodup →
      scanMember value s = .ok (key, v, dumpsMembers sep members ++ t) →
      scanMembers value n read s = .ok (.obj (read ++ (key, v) :: members), t) := by
  have fresh : ∀ {ks ls : List PyStr} {key : PyStr}, (ks ++ key :: ls).Nodup → key ∉ ks :=
    fun hkeys hmem => (List.nodup_append.mp hkeys).2.2 _ hmem _ List.mem_cons_self rfl
  induction members with
  | nil =>
      intro n read key v s hn hkeys hv
      obtain ⟨n, rfl⟩ : ∃ k, n = k + 1 := ⟨n - 1, by rw [List.length_nil] at hn; omega⟩
      simp only [scanMembers, hv, dumpsMembers, List.singleton_append,
        skipWs_cons (show isWs rbrace = false from rfl), if_true,
        setItem_of_notMem (fresh hkeys)]
  | cons m members ih =>
      obtain ⟨key₁, w⟩ := m
      intro n read key v s hn hkeys hv
      rw [List.length_cons] at hn
      obtain ⟨n, rfl⟩ : ∃ k, n = k + 1 := ⟨n - 1, by omega⟩
      have hread := hmembers (key₁, w) List.mem_cons_self _
        (@stops_dumpsMembers _ sep members t)
      have hnext := ih (fun x hx => hmembers x (List.mem_cons_of_mem _ hx)) n
        (read ++ [(key, v)]) key₁ w _ (by omega) (by simpa using hkeys) hread
      have hstart : ∀ t, skipWs (dumpsStr key₁ ++ t) = dumpsStr key₁ ++ t := fun t =>
        skipWs_cons (show isWs quote = false from rfl) _
      simp only [scanMembers, hv, dumpsMembers, Separators.item, List.cons_append,
        List.append_assoc, skipWs_cons (show isWs comma = false from rfl),
        if_neg (show comma ≠ rbrace by decide), if_true, skipWs_gap sep (hstart _),
        setItem_of_notMem (fresh hkeys), hnext, List.nil_append]

theorem length_dumpsItems (items : List Json) :
    items.length < (dumpsItems sep items).length := by
  induction items with
  | nil => exact Nat.one_pos
  | cons item items ih =>
      simp only [dumpsItems, Separators.item, List.length_append, List.length_cons]
      omega

theorem length_dumpsMembers (members : List (PyStr × Json)) :
    members.length < (dumpsMembers sep members).length := by
  induction members with
  | nil => exact Nat.one_pos
  | cons m members ih =>
      simp only [dumpsMembers, Separators.item, List.length_append, List.length_cons]
      omega

omit [Interpreter] in
theorem scanOnce_atom {value : Option Scan} {c : CodePoint}
    (hc : c ≠ quote ∧ c ≠ lbrace ∧ c ≠ lbracket) (t : PyStr) :
    scanOnce value (c :: t) = scanAtom (c :: t) := by
  simp only [scanOnce, if_neg hc.1, if_neg hc.2.1, if_neg hc.2.2]

omit [Interpreter] in
theorem scanOnce_literal {value : Option Scan} {c : CodePoint} {l : PyStr} {v : Json}
    (hc : c ≠ quote ∧ c ≠ lbrace ∧ c ≠ lbracket) (h : literalOf c = some (c :: l, v)) (t : PyStr) :
    scanOnce value (c :: l ++ t) = .ok (v, t) := by
  rw [List.cons_append, scanOnce_atom hc, ← List.cons_append, scanAtom_literal h]

omit [Interpreter] in
theorem scanOnce_strInt {value : Option Scan} (n : ℤ) {t : PyStr} (ht : Stops t) :
    scanOnce value (strInt n ++ t) = .ok (.int n, t) := by
  obtain ⟨c, l, heq, hc⟩ : ∃ c l, strInt n = c :: l ∧ c ≠ quote ∧ c ≠ lbrace ∧ c ≠ lbracket := by
    cases n with
    | negSucc m => exact ⟨_, _, rfl, by decide⟩
    | ofNat m =>
        obtain ⟨c, l, heq⟩ := List.exists_cons_of_ne_nil (strNat_ne_nil m)
        have hdigit := isDigit_of_mem_strNat (n := m) (heq ▸ List.mem_cons_self : c ∈ strNat m)
        refine ⟨c, l, heq, ?_, ?_, ?_⟩ <;>
        · rintro rfl
          exact absurd hdigit (by decide)
  have hatom := scanAtom_strInt n ht
  rw [heq, List.cons_append] at hatom ⊢
  rw [scanOnce_atom hc, hatom]

omit [Interpreter] in
theorem scanOnce_dumpsStr {value : Option Scan} {s : PyStr} (hs : NoSurrogatePair s) (t : PyStr) :
    scanOnce value (dumpsStr s ++ t) = .ok (.str s, t) := by
  rw [dumpsStr_append]
  simp only [scanOnce, if_true, scanString_dumpsStr hs]

/-- The values that hold no others. -/
theorem scanOnce_leaf {value : Option Scan} {v : Json} {t : PyStr} (h : Writable 0 v)
    (ht : Stops t) : scanOnce value (dumps sep v ++ t) = .ok (v, t) := by
  cases v with
  | null => exact scanOnce_literal (by decide) rfl t
  | bool b => cases b <;> exact scanOnce_literal (by decide) rfl t
  | int n => exact scanOnce_strInt n ht
  | float l => exact h.elim
  | str s => exact scanOnce_dumpsStr h t
  | arr items => exact h.elim
  | obj members => exact h.elim

theorem scanOnce_arr {depth : ℕ} {value : Scan} {items : List Json}
    (hitems : ∀ item ∈ items, Writable depth item)
    (hread : ∀ item ∈ items, ∀ t, Stops t → value (dumps sep item ++ t) = .ok (item, t))
    (t : PyStr) :
    scanOnce (some value) (dumps sep (.arr items) ++ t) = .ok (.arr items, t) := by
  have hne : lbracket ≠ quote ∧ lbracket ≠ lbrace := by decide
  cases items with
  | nil =>
      simp only [dumps, List.cons_append, List.nil_append, scanOnce, if_neg hne.1, if_neg hne.2,
        if_true, skipWs_cons (show isWs rbracket = false from rfl)]
  | cons item items =>
      obtain ⟨c, l, heq, hws, hbracket⟩ := @dumps_cons _ sep _ _ (hitems item List.mem_cons_self)
      have hfirst := hread item List.mem_cons_self _ (@stops_dumpsItems _ sep items t)
      have hrest := scanItems_dumpsItems
        (fun x hx t => ⟨skipWs_dumps (hitems x (List.mem_cons_of_mem item hx)) t,
          hread x (List.mem_cons_of_mem item hx) t⟩)
        (dumps sep item ++ (dumpsItems sep items ++ t)).length [] item _
        (by have := @length_dumpsItems _ sep items
            simp only [List.length_append]
            omega) hfirst
      rw [heq, List.cons_append] at hrest
      simp only [dumps, List.cons_append, List.append_assoc, heq, scanOnce, if_neg hne.1,
        if_neg hne.2, if_true, skipWs_cons hws, if_neg hbracket, hrest, List.reverse_nil,
        List.nil_append]

theorem scanOnce_obj {depth : ℕ} {value : Scan} {members : List (PyStr × Json)}
    (hkeys : (members.map Prod.fst).Nodup)
    (hmembers : ∀ m ∈ members, NoSurrogatePair m.1 ∧ Writable depth m.2)
    (hread : ∀ m ∈ members, ∀ t, Stops t → value (dumps sep m.2 ++ t) = .ok (m.2, t))
    (t : PyStr) :
    scanOnce (some value) (dumps sep (.obj members) ++ t) = .ok (.obj members, t) := by
  have hne : lbrace ≠ quote ∧ quote ≠ rbrace := by decide
  cases members with
  | nil =>
      simp only [dumps, List.cons_append, List.nil_append, scanOnce, if_neg hne.1,
        if_true, skipWs_cons (show isWs rbrace = false from rfl)]
  | cons m members =>
      have hmember : ∀ x ∈ m :: members, ∀ t, Stops t →
          scanMember value (dumpsStr x.1 ++ (sep.key ++ (dumps sep x.2 ++ t)))
            = .ok (x.1, x.2, t) := fun x hx t ht =>
        scanMember_dumps (hmembers x hx).1 (skipWs_dumps (hmembers x hx).2 t) (hread x hx t ht)
      obtain ⟨key, v⟩ := m
      have hfirst := hmember (key, v) List.mem_cons_self _ (@stops_dumpsMembers _ sep members t)
      have hrest := scanMembers_dumpsMembers
        (fun x hx => hmember x (List.mem_cons_of_mem _ hx))
        (dumpsStr key ++ (sep.key ++ (dumps sep v ++ (dumpsMembers sep members ++ t)))).length
        [] key v _
        (by have := @length_dumpsMembers _ sep members
            simp only [List.length_append]
            omega) hkeys hfirst
      rw [dumpsStr_append] at hrest
      simp only [dumps, List.cons_append, List.append_assoc, dumpsStr_append, scanOnce,
        if_neg hne.1, if_true, skipWs_cons (show isWs quote = false from rfl), if_neg hne.2,
        List.nil_append] at hrest ⊢
      exact hrest

/-- **The reader inverts the writer**, whatever follows an object. -/
theorem scan_dumps {depth : ℕ} {v : Json} {t : PyStr} (h : Writable depth v)
    (ht : Stops t ∨ ∃ members, v = .obj members) :
    scan depth (dumps sep v ++ t) = .ok (v, t) := by
  induction depth generalizing v t with
  | zero =>
      cases v with
      | obj members => exact h.elim
      | _ => exact scanOnce_leaf h (ht.resolve_right nofun)
  | succ depth ih =>
      cases v with
      | arr items =>
          exact scanOnce_arr h (fun item hitem t ht => ih (h item hitem) (.inl ht)) t
      | obj members =>
          exact scanOnce_obj h.1 h.2 (fun m hm t ht => ih (h.2 m hm).2 (.inl ht)) t
      | _ => exact scanOnce_leaf h (ht.resolve_right nofun)

/-! ## Whole texts -/

theorem loads_eq_decode {s : PyStr} (h : s = [] ∨ OpensObject s) : loads s = decode s := by
  refine if_neg ?_
  rcases h with rfl | ⟨t, rfl⟩
  · exact nofun
  · exact fun h => absurd (Option.some.inj h) (by decide)

theorem decode_eq {s : PyStr} (h : OpensObject s) :
    decode s =
      match scan recursionLimit s with
      | .error e => .error e
      | .ok (v, s) => if skipWs s = [] then .ok v else .error .jsonDecodeError := by
  obtain ⟨t, rfl⟩ := h
  have hskip : skipWs (lbrace :: t) = lbrace :: t := skipWs_cons rfl t
  exact (congrArg (fun u => (match scan recursionLimit u with
    | .error e => .error e
    | .ok (v, s) => if skipWs s = [] then .ok v else .error .jsonDecodeError :
      Except PyErr Json)) hskip :)

theorem opensObject_dumps (members : List (PyStr × Json)) :
    OpensObject (dumps sep (.obj members)) := by
  cases members with
  | nil => exact ⟨_, rfl⟩
  | cons m members => exact ⟨_, rfl⟩

theorem opensObject_of_start {members : List (PyStr × Json)} {p : PyStr}
    (h : p <+: dumps sep (.obj members)) : p = [] ∨ OpensObject p := by
  cases p with
  | nil => exact .inl rfl
  | cons c p =>
      obtain ⟨q, hq⟩ := h
      obtain ⟨l, heq⟩ := @opensObject_dumps _ sep members
      rw [heq, List.cons_append] at hq
      exact .inr ⟨p, by rw [(List.cons.inj hq).1]⟩

omit [Interpreter] in
theorem OpensObject.append {s : PyStr} (h : OpensObject s) (t : PyStr) : OpensObject (s ++ t) := by
  obtain ⟨l, rfl⟩ := h
  exact ⟨l ++ t, rfl⟩

/-- Reading a written object with something after it. -/
theorem decode_dumps_append {members : List (PyStr × Json)}
    (h : Writable recursionLimit (.obj members)) (t : PyStr) :
    decode (dumps sep (.obj members) ++ t) =
      if skipWs t = [] then .ok (.obj members) else .error .jsonDecodeError := by
  rw [decode_eq ((opensObject_dumps members).append t), scan_dumps h (.inr ⟨members, rfl⟩)]

/-- **A torn object cannot be read**: no proper prefix of what the writer wrote is JSON. -/
theorem decode_torn {members : List (PyStr × Json)}
    (h : Writable recursionLimit (.obj members)) {p q : PyStr}
    (hpq : p ++ q = dumps sep (.obj members)) (hq : q ≠ []) (v : Json) : decode p ≠ .ok v := by
  intro hload
  have hopen : p = [] ∨ OpensObject p := opensObject_of_start ⟨q, hpq⟩
  rcases hopen with rfl | hopen
  · have hnil : scan recursionLimit [] = .error .jsonDecodeError := by
      cases recursionLimit <;> rfl
    simp only [decode, skipWs, List.dropWhile_nil, hnil] at hload
    cases hload
  · rw [decode_eq hopen] at hload
    cases hscan : scan recursionLimit p with
    | error e =>
        rw [hscan] at hload
        cases hload
    | ok out =>
        have hlong := scan_append q hscan (.inr hopen)
        have hwhole := @scan_dumps _ sep _ _ [] h (.inr ⟨members, rfl⟩)
        rw [List.append_nil, ← hpq, hlong] at hwhole
        exact hq (List.append_eq_nil_iff.mp (Prod.mk.inj (Except.ok.inj hwhole)).2).2

/-- **Two objects on one line cannot be read.** -/
theorem decode_glued {members members' : List (PyStr × Json)}
    (h : Writable recursionLimit (.obj members)) (t : PyStr) :
    decode (dumps sep (.obj members) ++ (dumps sep (.obj members') ++ t))
      = .error .jsonDecodeError := by
  rw [decode_dumps_append h, if_neg]
  obtain ⟨l, heq⟩ := @opensObject_dumps _ sep members'
  rw [heq, List.cons_append, skipWs_cons (show isWs lbrace = false from rfl)]
  exact List.cons_ne_nil _ _

/-! ## What is written is printable -/

omit [Interpreter] in
theorem isPrintable_escapeUnit {n : ℕ} {c : CodePoint} (h : c ∈ escapeUnit n) :
    IsPrintable c := by
  have digit : ∀ m, IsPrintable (hexDigit (m % 16)) := fun m =>
    isPrintable_hexDigit (Nat.mod_lt m (by decide))
  simp only [escapeUnit, hex4, List.mem_cons, List.not_mem_nil, or_false] at h
  rcases h with rfl | rfl | rfl | rfl | rfl | rfl
  · decide
  · decide
  all_goals exact digit _

omit [Interpreter] in
theorem isPrintable_escapeChar {c d : CodePoint} (h : d ∈ escapeChar c) : IsPrintable d := by
  have short : ∀ {x : CodePoint}, IsPrintable x → d ∈ [backslash, x] → IsPrintable d := by
    intro x hx hd
    rcases List.mem_pair.mp hd with rfl | rfl
    · decide
    · exact hx
  unfold escapeChar at h
  split_ifs at h with h1 h2 h3 h4 h5 h6 h7 h8 h9
  · exact short (by decide) h
  · exact short (by decide) h
  · exact short (by decide) h
  · exact short (by decide) h
  · exact short (by decide) h
  · exact short (by decide) h
  · exact short (by decide) h
  · obtain rfl := List.mem_singleton.mp h
    exact h8
  · exact isPrintable_escapeUnit h
  · rcases List.mem_append.mp h with h | h <;> exact isPrintable_escapeUnit h

omit [Interpreter] in
theorem isPrintable_dumpsStr {s : PyStr} {c : CodePoint} (h : c ∈ dumpsStr s) :
    IsPrintable c := by
  rw [dumpsStr, List.mem_cons, List.mem_append, List.mem_singleton, List.mem_flatMap] at h
  rcases h with rfl | ⟨d, -, h⟩ | rfl
  · decide
  · exact isPrintable_escapeChar h
  · decide

omit [Interpreter] in
theorem isPrintable_strInt {n : ℤ} {c : CodePoint} (h : c ∈ strInt n) : IsPrintable c := by
  have digit : ∀ m, c ∈ strNat m → IsPrintable c := fun m h => by
    have := isDigit_of_mem_strNat h
    exact ⟨by omega, by omega⟩
  cases n with
  | ofNat m => exact digit m h
  | negSucc m =>
      rcases List.mem_cons.mp h with rfl | h
      · decide
      · exact digit _ h

omit [Interpreter] in
theorem isPrintable_separators (sep : Separators) :
    (∀ c ∈ sep.item, IsPrintable c) ∧ ∀ c ∈ sep.key, IsPrintable c := by
  have gap : ∀ c ∈ sep.gap, IsPrintable c := by
    cases sep with
    | compact => exact nofun
    | spaced => exact List.forall_mem_singleton.mpr (by decide)
  exact ⟨List.forall_mem_cons.mpr ⟨by decide, gap⟩, List.forall_mem_cons.mpr ⟨by decide, gap⟩⟩

theorem isPrintable_dumpsItems {items : List Json}
    (h : ∀ item ∈ items, ∀ c ∈ dumps sep item, IsPrintable c) :
    ∀ c ∈ dumpsItems sep items, IsPrintable c := by
  induction items with
  | nil => exact List.forall_mem_singleton.mpr (by decide)
  | cons item items ih =>
      intro c hc
      rw [dumpsItems, List.mem_append, List.mem_append] at hc
      rcases hc with hc | hc | hc
      · exact (isPrintable_separators sep).1 c hc
      · exact h item List.mem_cons_self c hc
      · exact ih (fun x hx => h x (List.mem_cons_of_mem item hx)) c hc

theorem isPrintable_dumpsMembers {members : List (PyStr × Json)}
    (h : ∀ m ∈ members, ∀ c ∈ dumps sep m.2, IsPrintable c) :
    ∀ c ∈ dumpsMembers sep members, IsPrintable c := by
  induction members with
  | nil => exact List.forall_mem_singleton.mpr (by decide)
  | cons m members ih =>
      intro c hc
      rw [dumpsMembers, List.mem_append, List.mem_append, List.mem_append, List.mem_append] at hc
      rcases hc with hc | hc | hc | hc | hc
      · exact (isPrintable_separators sep).1 c hc
      · exact isPrintable_dumpsStr hc
      · exact (isPrintable_separators sep).2 c hc
      · exact h m List.mem_cons_self c hc
      · exact ih (fun x hx => h x (List.mem_cons_of_mem m hx)) c hc

theorem isPrintable_dumps_leaf {v : Json} (h : Writable 0 v) :
    ∀ c ∈ dumps sep v, IsPrintable c := by
  have literal : ∀ {l : PyStr}, l.all (fun c => IsPrintable c) = true → ∀ c ∈ l, IsPrintable c :=
    fun hl c hc => of_decide_eq_true (List.all_eq_true.mp hl c hc)
  cases v with
  | null => exact literal rfl
  | bool b => cases b <;> exact literal rfl
  | int n => exact fun c hc => isPrintable_strInt hc
  | float l => exact h.elim
  | str s => exact fun c hc => isPrintable_dumpsStr hc
  | arr items => exact h.elim
  | obj members => exact h.elim

/-- **What is written is printable ASCII**: no line break can stand in it. -/
theorem isPrintable_dumps {depth : ℕ} {v : Json} (h : Writable depth v) :
    ∀ c ∈ dumps sep v, IsPrintable c := by
  induction depth generalizing v with
  | zero => exact isPrintable_dumps_leaf h
  | succ depth ih =>
      cases v with
      | arr items =>
          cases items with
          | nil => exact List.forall_mem_cons.mpr ⟨by decide, List.forall_mem_singleton.mpr (by decide)⟩
          | cons item items =>
              intro c hc
              rw [dumps, List.mem_cons, List.mem_append] at hc
              rcases hc with rfl | hc | hc
              · decide
              · exact ih (h item List.mem_cons_self) c hc
              · exact isPrintable_dumpsItems
                  (fun x hx => ih (h x (List.mem_cons_of_mem item hx))) c hc
      | obj members =>
          cases members with
          | nil => exact List.forall_mem_cons.mpr ⟨by decide, List.forall_mem_singleton.mpr (by decide)⟩
          | cons m members =>
              obtain ⟨hkeys, hmembers⟩ := h
              intro c hc
              rw [dumps, List.mem_cons, List.mem_append, List.mem_append, List.mem_append] at hc
              rcases hc with rfl | hc | hc | hc | hc
              · decide
              · exact isPrintable_dumpsStr hc
              · exact (isPrintable_separators sep).2 c hc
              · exact ih (hmembers m List.mem_cons_self).2 c hc
              · exact isPrintable_dumpsMembers
                  (fun x hx => ih (hmembers x (List.mem_cons_of_mem m hx)).2) c hc
      | _ => exact isPrintable_dumps_leaf h

end Json

end Waxseal
