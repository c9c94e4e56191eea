/-
Module: RateNet.Net.Headers
Layer: Net
Purpose: The values of the rate-limit response headers: whole seconds rounded up, and the two
  structured fields, which name a policy in a quoted string and carry two integers. What a `Display`
  implementation writes is the list of characters it hands to its formatter, in order.
Imports: RateNet.Core.KeyState, RateNet.Lib.StructuredField
Trusted boundary: none
Main exports: maxSfInteger, writeSfString, writeField, RateLimitValue, RateLimitPolicyValue, ceilSecs,
  Decision.retryAfterSecs, Snapshot.ratelimit, Quota.ratelimitPolicy, retry_after_never_early, IsField,
  structured_fields_read_back
-/
import RateNet.Core.KeyState
import RateNet.Lib.StructuredField

namespace RateNet

open StructuredField

/-- The largest integer of a structured field: fifteen digits. -/
def maxSfInteger : ℕ := 999999999999999

/-- What one character of a name becomes: a quote or a backslash is escaped, anything else outside printable
    ASCII dropped. -/
def writeSfChar (ch : Char) : List Char :=
  if ch = '"' ∨ ch = '\\' then
    ['\\', ch]
  else if ' ' ≤ ch ∧ ch ≤ '~' then
    [ch]
  else
    []

/-- A name as a structured string. -/
def writeSfString (name : String) : List Char := '"' :: name.toList.flatMap writeSfChar ++ ['"']

/-- A name and two integer parameters with one-letter keys. -/
def writeField (name : String) (firstKey : Char) (first : ℕ) (secondKey : Char) (second : ℕ) : List Char :=
  writeSfString name ++
    ';' :: firstKey :: '=' :: (Nat.toDigits 10 (min first maxSfInteger) ++
      ';' :: secondKey :: '=' :: Nat.toDigits 10 (min second maxSfInteger))

/-- The value of a `RateLimit` field for one policy. -/
structure RateLimitValue where
  policy : String
  remaining : ℕ
  reset : ℕ

def RateLimitValue.display (value : RateLimitValue) : List Char :=
  writeField value.policy 'r' value.remaining 't' value.reset

/-- The value of a `RateLimit-Policy` field. -/
structure RateLimitPolicyValue where
  policy : String
  quota : ℕ
  window : ℕ

def RateLimitPolicyValue.display (value : RateLimitPolicyValue) : List Char :=
  writeField value.policy 'q' value.quota 'w' value.window

/-- Whole seconds in `wait`, rounded up and saturating. -/
def ceilSecs (wait : ℕ) : ℕ :=
  let secs := wait / nanosPerSec
  if wait % nanosPerSec > 0 then satAdd secs 1 else secs

/-- The `Retry-After` seconds of a denial, none for a request that can never succeed. -/
def Decision.retryAfterSecs : Decision → Option ℕ
  | .deny retryAfter => if retryAfter ≠ durationMax then some (max (ceilSecs retryAfter) 1) else none
  | .allow => none

namespace Snapshot

def resetAfterSecs (s : Snapshot) : ℕ := ceilSecs s.resetAfter

/-- The seconds of the reset header, zero for a limiter that admits nothing. -/
def resetHeaderSecs (s : Snapshot) : ℕ := if s.limit = 0 then 0 else s.resetAfterSecs

def ratelimit (s : Snapshot) (policy : String) : RateLimitValue :=
  { policy, remaining := s.remaining, reset := s.resetHeaderSecs }

end Snapshot

def Quota.ratelimitPolicy (quota : Quota) (name : String) : RateLimitPolicyValue :=
  { policy := name, quota := quota.limit, window := ceilSecs quota.period }

/-- Whole seconds cover the wait, where they fit a word. -/
theorem le_ceilSecs {wait : ℕ} (fits : wait ≤ u64Max * nanosPerSec) : wait ≤ ceilSecs wait * nanosPerSec := by
  have parts := Nat.div_add_mod' wait nanosPerSec
  have rest : wait % nanosPerSec < nanosPerSec := Nat.mod_lt _ (by decide)
  unfold ceilSecs
  simp only
  split
  · rename_i remainder
    have whole : wait / nanosPerSec < u64Max := by
      by_contra saturated
      have := Nat.mul_le_mul_right nanosPerSec (Nat.le_of_not_lt saturated)
      omega
    rw [satAdd_eq (by omega), Nat.succ_mul]
    omega
  · omega

/-- A client that honours `Retry-After` never retries before the wait of the denial is over. -/
theorem retry_after_never_early {retryAfter secs : ℕ}
    (header : (Decision.deny retryAfter).retryAfterSecs = some secs) (fits : retryAfter ≤ u64Max * nanosPerSec) :
    1 ≤ secs ∧ retryAfter ≤ secs * nanosPerSec := by
  simp only [Decision.retryAfterSecs] at header
  split at header
  · obtain rfl := Option.some.inj header
    exact ⟨le_max_right _ _, (le_ceilSecs fits).trans (Nat.mul_le_mul_right _ (le_max_left _ _))⟩
  · cases header

/-!
### The name
-/

/-- The name a structured string can carry: what is left without the characters outside printable ASCII. -/
def carried (name : String) : List Char := name.toList.filter printable

/-- A character written is printable. -/
theorem printable_of_mem_writeSfChar {ch c : Char} (member : c ∈ writeSfChar ch) : printable c = true := by
  unfold writeSfChar at member
  split at member
  · rename_i special
    rcases List.mem_pair.1 member with rfl | rfl
    · decide
    · rcases special with rfl | rfl <;> decide
  · split at member
    · rename_i visible
      rw [List.mem_singleton.1 member, printable, Bool.and_eq_true, decide_eq_true_iff, decide_eq_true_iff]
      exact visible
    · cases member

/-- Reading on past one written character gives it back, or nothing where it was dropped. -/
theorem readChars_writeSfChar (ch : Char) (rest : List Char) :
    readChars false (writeSfChar ch ++ rest) =
      (readChars false rest).map (Prod.map ([ch].filter printable ++ ·) id) := by
  by_cases special : ch = '"' ∨ ch = '\\'
  · have visible : printable ch = true := by rcases special with rfl | rfl <;> decide
    rw [writeSfChar, if_pos special, List.filter_cons_of_pos visible]
    exact readChars_escaped special rest
  · obtain ⟨quote, backslash⟩ := not_or.1 special
    rw [writeSfChar, if_neg special]
    split
    · rename_i range
      have visible : printable ch = true := by
        rw [printable, Bool.and_eq_true, decide_eq_true_iff, decide_eq_true_iff]
        exact range
      rw [List.filter_cons_of_pos visible]
      exact readChars_plain quote backslash visible rest
    · rename_i range
      have hidden : ¬ printable ch = true := by
        rw [printable, Bool.and_eq_true, decide_eq_true_iff, decide_eq_true_iff]
        exact range
      rw [List.filter_cons_of_neg hidden]
      exact (congrFun Option.map_id (readChars false rest)).symm

/-- The string ends at the quote written last, wherever its name has quotes and backslashes. -/
theorem readChars_flatMap (name rest : List Char) :
    readChars false (name.flatMap writeSfChar ++ '"' :: rest) = some (name.filter printable, rest) := by
  induction name with
  | nil => exact readChars_quote rest
  | cons ch name inductionHypothesis =>
      rw [List.flatMap_cons, List.append_assoc, readChars_writeSfChar, inductionHypothesis]
      rw [Option.map_some, Prod.map_apply, ← List.filter_append]
      rfl

theorem readString_writeSfString (name : String) (rest : List Char) :
    readString (writeSfString name ++ rest) = some (carried name, rest) := by
  rw [writeSfString, List.append_assoc, List.cons_append, List.singleton_append, readString, if_pos rfl]
  exact readChars_flatMap _ _

theorem printable_of_mem_writeSfString {name : String} {c : Char} (member : c ∈ writeSfString name) :
    printable c = true := by
  rw [writeSfString, List.mem_append, List.mem_cons, List.mem_flatMap, List.mem_singleton] at member
  rcases member with (rfl | ⟨ch, -, written⟩) | rfl
  · decide
  · exact printable_of_mem_writeSfChar written
  · decide

/-!
### The field
-/

theorem printable_of_isDigit {c : Char} (digit : c.isDigit = true) : printable c = true := by
  rw [Char.isDigit, Bool.and_eq_true, decide_eq_true_iff, decide_eq_true_iff] at digit
  rw [printable, Bool.and_eq_true, decide_eq_true_iff, decide_eq_true_iff]
  exact ⟨UInt32.le_trans (by decide : ' '.val ≤ '0'.val) digit.1,
    UInt32.le_trans digit.2 (by decide : '9'.val ≤ '~'.val)⟩

theorem printable_of_mem_toDigits {n : ℕ} {c : Char} (member : c ∈ Nat.toDigits 10 n) : printable c = true :=
  printable_of_isDigit (Nat.isDigit_of_mem_toDigits (by decide) (by decide) member)

theorem clamped_lt (n : ℕ) : min n maxSfInteger < 10 ^ 15 :=
  lt_of_le_of_lt (min_le_right _ _) (by decide)

/-- `text` is a quoted string followed by two integer parameters: the string ends right before the first of them
    and reads as `name`, every character is printable, and each integer has at most fifteen digits. -/
structure IsField (name : List Char) (firstKey : Char) (first : ℕ) (secondKey : Char) (second : ℕ)
    (text : List Char) : Prop where
  string_ends : readString text = some (name,
    ';' :: firstKey :: '=' :: (Nat.toDigits 10 first ++ ';' :: secondKey :: '=' :: Nat.toDigits 10 second))
  reads : readItem text = some (name, [([firstKey], first), ([secondKey], second)])
  visible : ∀ c ∈ text, printable c = true
  first_short : (Nat.toDigits 10 first).length ≤ 15
  second_short : (Nat.toDigits 10 second).length ≤ 15

/-- What is written for a name and two numbers is a field of the name carried and the numbers clamped. -/
theorem writeField_isField (name : String) {firstKey secondKey : Char}
    (firstKeyed : keyChar firstKey = true ∧ printable firstKey = true)
    (secondKeyed : keyChar secondKey = true ∧ printable secondKey = true) (first second : ℕ) :
    IsField (carried name) firstKey (min first maxSfInteger) secondKey (min second maxSfInteger)
      (writeField name firstKey first secondKey second) := by
  have string := readString_writeSfString name (';' :: firstKey :: '=' ::
    (Nat.toDigits 10 (min first maxSfInteger) ++
      ';' :: secondKey :: '=' :: Nat.toDigits 10 (min second maxSfInteger)))
  refine ⟨string, ?_, ?_, ?_, ?_⟩
  · rw [writeField, readItem, string]
    simp only
    rw [List.length_cons, readParameters_cons firstKeyed.1 (clamped_lt first) _ rfl]
    -- the second parameter is read with the fuel of the first one's key, up to the end of the text
    have last := readParameters_cons secondKeyed.1 (clamped_lt second)
      ('=' :: (Nat.toDigits 10 (min first maxSfInteger) ++
        ';' :: secondKey :: '=' :: Nat.toDigits 10 (min second maxSfInteger))).length (List.takeWhile_nil)
    rw [List.append_nil] at last
    rw [List.length_cons, last, readParameters]
    rfl
  · intro c member
    simp only [writeField, List.mem_append, List.mem_cons] at member
    rcases member with written | rfl | rfl | rfl | digit | rfl | rfl | rfl | digit
    · exact printable_of_mem_writeSfString written
    · decide
    · exact firstKeyed.2
    · decide
    · exact printable_of_mem_toDigits digit
    · decide
    · exact secondKeyed.2
    · decide
    · exact printable_of_mem_toDigits digit
  · exact (Nat.length_toDigits_le_iff (by decide) (by decide)).2 (clamped_lt first)
  · exact (Nat.length_toDigits_le_iff (by decide) (by decide)).2 (clamped_lt second)

/-- No policy name breaks a structured field: both values are written as the name without its unprintable
    characters, in a string that ends where the parameters begin, and the two numbers clamped to fifteen
    digits. -/
theorem structured_fields_read_back (policy : String) (remaining reset quota window : ℕ) :
    IsField (carried policy) 'r' (min remaining maxSfInteger) 't' (min reset maxSfInteger)
        (RateLimitValue.mk policy remaining reset).display ∧
      IsField (carried policy) 'q' (min quota maxSfInteger) 'w' (min window maxSfInteger)
        (RateLimitPolicyValue.mk policy quota window).display :=
  ⟨writeField_isField policy ⟨by decide, by decide⟩ ⟨by decide, by decide⟩ remaining reset,
    writeField_isField policy ⟨by decide, by decide⟩ ⟨by decide, by decide⟩ quota window⟩

example : (RateLimitValue.mk "a\"b\\c\n\u00e9" u64Max u64Max).display =
    "\"a\\\"b\\\\c\";r=999999999999999;t=999999999999999".toList := by
  decide +kernel

end RateNet
