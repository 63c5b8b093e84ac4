import DocTokens.Text.Integer

/-! # Arithmetic of 64 bits

Offsets, columns and lengths are integers of 64 bits. Those of a text stay far from both ends of the
range. Those that callers make up need not, and counting past one end goes on at the other.
-/

namespace DocTokens.Integer

/-- How many integers there are in the range. -/
def modulus : Int := greatest - least + 1

/-- Counts up by a number that is not negative. -/
def countUp (n d : Int) : Int := if n + d ≤ greatest then n + d else n + d - modulus

/-- Counts down by a number that is not negative. -/
def countDown (n d : Int) : Int := if least ≤ n - d then n - d else n - d + modulus

theorem countUp_of_le {n d : Int} (h : n + d ≤ greatest) : countUp n d = n + d := if_pos h

theorem countDown_of_le {n d : Int} (h : least ≤ n - d) : countDown n d = n - d := if_pos h

/-- A number that is not negative stays in the range when another is taken away. -/
theorem countDown_natCast {n d : Nat} (h : d ≤ n) : countDown n d = (n - d : Nat) := by
  rw [countDown_of_le (by simp only [least]; omega)]
  omega

/-- Counting up is the sum of two machine integers. -/
theorem toInt_add (n d : Int64) (h : 0 ≤ d.toInt) : (n + d).toInt = countUp n.toInt d.toInt := by
  have hn := n.toInt_lt
  have hn' := n.le_toInt
  have hd := d.toInt_lt
  rw [Int64.toInt_add]
  by_cases hle : n.toInt + d.toInt ≤ greatest
  · rw [countUp_of_le hle]
    simp only [greatest] at hle
    exact Int.bmod_eq_of_le (by omega) (by omega)
  · rw [countUp, if_neg hle, Int.bmod_def]
    simp only [greatest, least, modulus] at hle ⊢
    omega

/-- Counting down is the difference of two machine integers. -/
theorem toInt_sub (n d : Int64) (h : 0 ≤ d.toInt) : (n - d).toInt = countDown n.toInt d.toInt := by
  have hn := n.toInt_lt
  have hn' := n.le_toInt
  have hd := d.toInt_lt
  rw [Int64.toInt_sub]
  by_cases hle : least ≤ n.toInt - d.toInt
  · rw [countDown_of_le hle]
    simp only [least] at hle
    exact Int.bmod_eq_of_le (by omega) (by omega)
  · rw [countDown, if_neg hle, Int.bmod_def]
    simp only [greatest, least, modulus] at hle ⊢
    omega

end DocTokens.Integer
