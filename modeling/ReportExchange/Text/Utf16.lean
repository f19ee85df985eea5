namespace ReportExchange.Text

-- A character beyond the first 65536 is written as two units, of which neither is a character.
def isHighHalf (u : Nat) : Bool :=
  0xD800 ≤ u && u < 0xDC00

def isLowHalf (u : Nat) : Bool :=
  0xDC00 ≤ u && u < 0xE000

-- Reads units onto the text so far, which stands reversed. A unit past 16 bits is a character.
def joinUnits (read : List Char) : List Nat → Option (List Char)
  | [] => some read.reverse
  | u :: us =>
    if isHighHalf u then
      match us with
      | v :: vs =>
        if isLowHalf v then
          joinUnits (Char.ofNat (0x10000 + (u - 0xD800) * 0x400 + (v - 0xDC00)) :: read) vs
        else none
      | [] => none
    else if isLowHalf u then none
    else joinUnits (Char.ofNat u :: read) us

def ofUnits? (us : List Nat) : Option String :=
  (joinUnits [] us).map String.ofList

theorem isHighHalf_toNat (c : Char) : isHighHalf c.toNat = false := by
  have h : c.toNat < 0xD800 ∨ 0xDFFF < c.toNat ∧ c.toNat < 0x110000 := c.valid
  simp only [isHighHalf, Bool.and_eq_false_iff, decide_eq_false_iff_not]
  omega

theorem isLowHalf_toNat (c : Char) : isLowHalf c.toNat = false := by
  have h : c.toNat < 0xD800 ∨ 0xDFFF < c.toNat ∧ c.toNat < 0x110000 := c.valid
  simp only [isLowHalf, Bool.and_eq_false_iff, decide_eq_false_iff_not]
  omega

theorem joinUnits_map_toNat (read cs : List Char) :
    joinUnits read (cs.map Char.toNat) = some (read.reverse ++ cs) := by
  induction cs generalizing read with
  | nil => simp [joinUnits]
  | cons c cs ih =>
    rw [List.map_cons, joinUnits.eq_def]
    simp [isHighHalf_toNat, isLowHalf_toNat, ih]

-- Characters written one a unit are the text that they make.
theorem ofUnits?_map_toNat (s : String) : ofUnits? (s.toList.map Char.toNat) = some s := by
  simp [ofUnits?, joinUnits_map_toNat]

end ReportExchange.Text
