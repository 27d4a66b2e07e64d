import DocumentGraph.Document.FileName
import DocumentGraph.Proofs.Text.Split

namespace DocumentGraph.Document.FileName

/-! How names are shown.

A name that is a text in UTF-8 is shown as that text, so such names can be told apart in paths.
Other bytes are lost.
-/

variable {text : List Char} {bytes rest : List UInt8} {begun : Begun} {code lead bits : Nat}

theorem shownFrom_cons (begun : Option Begun) (byte : UInt8) (rest : List UInt8) :
    shownFrom begun (byte :: rest) =
      (step begun byte.toNat).1 ++ shownFrom (step begun byte.toNat).2 rest := rfl

theorem toNat_ofNat (small : code < 256) : (UInt8.ofNat code).toNat = code := by
  rw [UInt8.toNat_ofNat']
  exact Nat.mod_eq_of_lt small

theorem shownFrom_single (small : code < 0x80) (rest : List UInt8) :
    shownFrom none (UInt8.ofNat code :: rest) = Char.ofNat code :: shownFrom none rest := by
  rw [shownFrom_cons, toNat_ofNat (by omega), step, start, if_pos small]
  rfl

/-- Nothing is shown for a byte that begins a character. -/
theorem shownFrom_lead (found : begun? code = some begun) (large : ¬ code < 0x80)
    (small : code < 256) (rest : List UInt8) :
    shownFrom none (UInt8.ofNat code :: rest) = shownFrom (some begun) rest := by
  rw [shownFrom_cons, toNat_ofNat small, step, start, if_neg large, found]
  rfl

theorem step_fits {missing least greatest : Nat} (above : least ≤ bits) (below : bits ≤ greatest) :
    step (some { code, missing, least, greatest }) (bits + 0x80) =
      if missing = 1 then ([Char.ofNat (code * 64 + bits)], none)
      else ([], some { code := code * 64 + bits, missing := missing - 1 }) := by
  have fits : (decide (0x80 ≤ bits + 0x80) && decide (least ≤ bits) &&
      decide (bits ≤ greatest)) = true := by
    simp [above, below]
  rw [step]
  dsimp only
  rw [Nat.add_sub_cancel, if_pos fits]

/-- The last byte of a character. -/
theorem shownFrom_last {least greatest : Nat} (above : least ≤ bits) (below : bits ≤ greatest)
    (small : bits < 64) (rest : List UInt8) :
    shownFrom (some { code, missing := 1, least, greatest }) (UInt8.ofNat (bits + 0x80) :: rest) =
      Char.ofNat (code * 64 + bits) :: shownFrom none rest := by
  rw [shownFrom_cons, toNat_ofNat (by omega), step_fits above below, if_pos rfl]
  rfl

/-- A byte that others follow adds six bits to the code. -/
theorem shownFrom_further {missing least greatest : Nat} (above : least ≤ bits)
    (below : bits ≤ greatest) (small : bits < 64) (rest : List UInt8) :
    shownFrom (some { code, missing := missing + 2, least, greatest })
        (UInt8.ofNat (bits + 0x80) :: rest) =
      shownFrom (some { code := code * 64 + bits, missing := missing + 1 }) rest := by
  rw [shownFrom_cons, toNat_ofNat (by omega), step_fits above below, if_neg (by omega)]
  rfl

theorem begun?_two (least : 2 ≤ lead) (greatest : lead < 32) :
    begun? (lead + 0xc0) = some { code := lead, missing := 1 } := by
  rw [begun?, if_neg (by omega), if_pos (by omega), Nat.add_sub_cancel]

theorem begun?_three (small : lead < 16) :
    begun? (lead + 0xe0) = some {
      code := lead
      missing := 2
      least := if lead = 0 then 0x20 else 0
      greatest := if lead = 0xd then 0x1f else 0x3f } := by
  rw [begun?, if_neg (by omega), if_neg (by omega), if_pos (by omega), Nat.add_sub_cancel]
  simp

theorem begun?_four (small : lead < 5) :
    begun? (lead + 0xf0) = some {
      code := lead
      missing := 3
      least := if lead = 0 then 0x10 else 0
      greatest := if lead = 4 then 0x0f else 0x3f } := by
  rw [begun?, if_neg (by omega), if_neg (by omega), if_neg (by omega), if_pos (by omega),
    Nat.add_sub_cancel]
  simp

/-- What a character in UTF-8 shows is the character. -/
theorem shownFrom_encodeChar (c : Char) (rest : List UInt8) :
    shownFrom none (String.utf8EncodeChar c ++ rest) = c :: shownFrom none rest := by
  have whole : Char.ofNat c.val.toNat = c := Char.ofNat_toNat c
  have valid : c.val.toNat < 0xd800 ∨ 0xdfff < c.val.toNat ∧ c.val.toNat < 0x110000 := c.valid
  unfold String.utf8EncodeChar
  generalize c.val.toNat = code at whole valid
  dsimp only
  split
  · rw [List.singleton_append, shownFrom_single (by omega), whole]
  split
  · have whole' : code / 64 % 32 * 64 + code % 64 = code := by omega
    rw [List.cons_append, List.singleton_append,
      shownFrom_lead (begun?_two (by omega) (by omega)) (by omega) (by omega),
      shownFrom_last (by omega) (by omega) (by omega), whole', whole]
  split
  · have whole' : (code / 4096 % 16 * 64 + code / 64 % 64) * 64 + code % 64 = code := by omega
    rw [List.cons_append, List.cons_append, List.singleton_append,
      shownFrom_lead (begun?_three (by omega)) (by omega) (by omega),
      shownFrom_further (by split <;> omega) (by split <;> omega) (by omega),
      shownFrom_last (by omega) (by omega) (by omega), whole', whole]
  · have whole' : ((code / 262144 % 8 * 64 + code / 4096 % 64) * 64 + code / 64 % 64) * 64 +
        code % 64 = code := by omega
    rw [List.cons_append, List.cons_append, List.cons_append, List.singleton_append,
      shownFrom_lead (begun?_four (by omega)) (by omega) (by omega),
      shownFrom_further (by split <;> omega) (by split <;> omega) (by omega),
      shownFrom_further (by omega) (by omega) (by omega),
      shownFrom_last (by omega) (by omega) (by omega), whole', whole]

theorem shownFrom_encode (text : List Char) (rest : List UInt8) :
    shownFrom none (encode text ++ rest) = text ++ shownFrom none rest := by
  induction text with
  | nil => rfl
  | cons c text ih =>
      have apart : encode (c :: text) = String.utf8EncodeChar c ++ encode text := List.flatMap_cons
      rw [apart, List.append_assoc, shownFrom_encodeChar, ih, List.cons_append]

theorem shownFrom_text (text : List Char) : shownFrom none (encode text) = text := by
  have whole := shownFrom_encode text []
  rwa [List.append_nil, shownFrom, if_neg (by decide), List.append_nil] at whole

@[simp] theorem shown_ofText (text : String) : (ofText text).shown = text := by
  rw [shown, ofText, shownFrom_text, String.ofList_toList]

@[simp] theorem ofText_inj {text text' : String} : ofText text = ofText text' ↔ text = text' := by
  refine ⟨fun same => ?_, congrArg ofText⟩
  rw [← shown_ofText text, same, shown_ofText]

/-- A byte that is a character by itself ends what was begun. -/
theorem step_short (small : code < 0x80) (begun : Begun) :
    step (some begun) code = ([replacement, Char.ofNat code], none) := by
  have single : ¬ 0x80 ≤ code := by omega
  simp [step, start, single, small]

/-- Such a byte is shown wherever it stands. -/
theorem shownFrom_append_cons (small : code < 0x80) (bytes rest : List UInt8)
    (begun : Option Begun) :
    shownFrom begun (bytes ++ UInt8.ofNat code :: rest) =
      shownFrom begun bytes ++ Char.ofNat code :: shownFrom none rest := by
  induction bytes generalizing begun with
  | nil =>
      cases begun with
      | none => exact shownFrom_single small rest
      | some begun =>
          rw [List.nil_append, shownFrom_cons, toNat_ofNat (by omega), step_short small]
          rfl
  | cons byte bytes ih =>
      rw [List.cons_append, shownFrom_cons, ih, shownFrom_cons, List.append_assoc]

/-- A name with a text behind it. -/
def append (name : FileName) (text : String) : FileName where
  bytes := name.bytes ++ encode text.toList

theorem ofText_append (text tail : String) : ofText (text ++ tail) = (ofText text).append tail := by
  rw [ofText, encode, String.toList_append, List.flatMap_append]
  rfl

theorem encode_dot (text : String) :
    encode ("." ++ text).toList = '.'.toUInt8 :: encode text.toList := by
  rw [String.toList_append, encode, List.flatMap_append]
  rfl

/-- What a name is shown as does not depend on a text behind it that begins with a dot. -/
theorem shown_append (name : FileName) (text : String) :
    (name.append ("." ++ text)).shown = name.shown ++ ("." ++ text) := by
  have dot : '.'.toUInt8 = UInt8.ofNat 0x2e := rfl
  rw [shown, append, encode_dot, dot, shownFrom_append_cons (by decide), shownFrom_text, shown,
    String.ofList_append, String.append_right_inj]
  exact String.toList_inj.mp (by simp)

theorem eq_dot_of_mem {c : Char} (member : '.'.toUInt8 ∈ String.utf8EncodeChar c) : c = '.' := by
  have whole : Char.ofNat c.val.toNat = c := Char.ofNat_toNat c
  have valid : c.val.toNat < 0xd800 ∨ 0xdfff < c.val.toNat ∧ c.val.toNat < 0x110000 := c.valid
  have dot : '.'.toUInt8.toNat = 0x2e := rfl
  unfold String.utf8EncodeChar at member
  generalize c.val.toNat = code at whole valid member
  dsimp only at member
  split at member
  · have same := congrArg UInt8.toNat (List.mem_singleton.mp member)
    rw [dot, toNat_ofNat (by omega)] at same
    rw [← whole, ← same]
  -- Every byte of a longer character is above those of the short ones.
  split at member
  case' isFalse => split at member
  all_goals
    simp only [List.mem_cons, List.not_mem_nil, or_false, ← UInt8.toNat_inj, dot,
      UInt8.toNat_ofNat', Nat.reducePow] at member
    omega

theorem dot_mem_encode_iff : '.'.toUInt8 ∈ encode text ↔ '.' ∈ text := by
  rw [encode, List.mem_flatMap]
  constructor
  · rintro ⟨c, member, inside⟩
    exact eq_dot_of_mem inside ▸ member
  · intro member
    exact ⟨'.', member, List.mem_singleton_self _⟩

/-- The name is a text. -/
def IsText (name : FileName) : Prop :=
  ∃ text, name = ofText text

namespace IsText

variable {name other : FileName}

theorem ofText_shown (isText : IsText name) : ofText name.shown = name := by
  obtain ⟨text, rfl⟩ := isText
  rw [shown_ofText]

instance : DecidablePred IsText :=
  fun _ => decidable_of_iff _ ⟨fun same => ⟨_, same.symm⟩, ofText_shown⟩

/-- Texts are told apart by what they are shown as. -/
theorem shown_inj (isText : IsText name) (isText' : IsText other) :
    name.shown = other.shown ↔ name = other := by
  rw [← ofText_inj, isText.ofText_shown, isText'.ofText_shown]

theorem of_append {text : String} (isText : IsText (name.append ("." ++ text))) : IsText name := by
  have whole := isText.ofText_shown
  rw [shown_append, ofText_append, append, append, mk.injEq] at whole
  exact ⟨name.shown, congrArg mk (List.append_cancel_right whole).symm⟩

end IsText

end DocumentGraph.Document.FileName
