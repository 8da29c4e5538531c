import NdsDevkit.Framework.Buffer
import Mathlib.Data.List.TakeWhile

namespace NdsDevkit.Compress

/-- The C string that starts at a pointer. -/
def cstring (z : List UInt8) : List UInt8 := z.takeWhile (· ≠ 0)

def ascii (s : String) : List UInt8 := s.toList.map fun c => UInt8.ofNat c.toNat

def sqlite3Strlen30 (z : List UInt8) : Nat := (cstring z).length % 2 ^ 30

/-- `z += sqlite3Strlen30(z) + 1`. -/
def skipString (z : List UInt8) : List UInt8 := z.drop (sqlite3Strlen30 z + 1)

/-- The loop over at most `n` parameters. The result points to the value. -/
def uriParameterLoop (zParam : List UInt8) : Nat → List UInt8 → Option (List UInt8)
  | 0, _ => none
  | n + 1, zFilename =>
    if zFilename.headD 0 = 0 then none
    else
      let value := skipString zFilename
      if cstring zFilename = zParam then some value
      else uriParameterLoop zParam n (skipString value)

/-- Every parameter takes two bytes at least, so that the loop ends by itself. -/
def sqlite3UriParameter (zFilename zParam : List UInt8) : Option (List UInt8) :=
  uriParameterLoop zParam zFilename.length (skipString zFilename)

def sqlite3Isspace (c : UInt8) : Bool := c = 0x20 || (0x09 ≤ c && c ≤ 0x0D)

def isDigit (c : UInt8) : Bool := 0x30 ≤ c && c ≤ 0x39

/-- The first 18 characters, and the weighted difference to 2^63 in the first one that differs. -/
def compare2pow63 (zNum : List UInt8) : Int :=
  let c := ((zNum.zip (ascii "922337203685477580")).take 18).foldl
    (fun c d => if c = 0 then ((d.1.toNat : Int) - d.2.toNat) * 10 else c) 0
  if c = 0 then ((zNum.getD 18 0).toNat : Int) - 0x38 else c

/-- The value `*pNum` and the return code, for a text in UTF-8. -/
def sqlite3Atoi64 (z : List UInt8) : Int × Nat :=
  let z := z.dropWhile sqlite3Isspace
  let neg := z.head? = some 0x2D
  let zStart := if neg ∨ z.head? = some 0x2B then z.tail else z
  let zNum := zStart.dropWhile (· = 0x30)
  let digits := zNum.takeWhile isDigit
  let u := digits.foldl (fun (u : Nat) (c : UInt8) => (u * 10 + (c.toNat - 0x30)) % 2 ^ 64) 0
  let i := digits.length
  let num : Int := if u > 2 ^ 63 - 1 then (if neg then -2 ^ 63 else 2 ^ 63 - 1)
    else if neg then -u else u
  if i < zNum.length ∨ (i = 0 ∧ zStart.length = zNum.length) ∨ i > 19 then (num, 1)
  else if i < 19 then (num, 0)
  else
    let c := compare2pow63 zNum
    if c < 0 then (num, 0) else if c > 0 then (num, 1) else (num, if neg then 0 else 2)

def sqlite3UriInt64 (zFilename zParam : List UInt8) (bDflt : Int) : Int :=
  match sqlite3UriParameter zFilename zParam with
  | none => bDflt
  | some z =>
    let r := sqlite3Atoi64 ((cstring z).take (sqlite3Strlen30 z))
    if r.2 = 0 then r.1 else bDflt

/-- A string that the 30 bits of its length are enough for. -/
def IsText (z : List UInt8) : Prop := 0 ∉ z ∧ z.length < 2 ^ 30

/-- The name of a file with its query parameters. -/
structure Uri where
  name : List UInt8
  params : List (List UInt8 × List UInt8)
  name_isText : IsText name
  params_isText : ∀ p ∈ params, p.1 ≠ [] ∧ IsText p.1 ∧ IsText p.2

/-- A parameter as it lies in memory. -/
def paramBytes (p : List UInt8 × List UInt8) : List UInt8 := p.1 ++ 0 :: (p.2 ++ [0])

/-- The memory that the file name points to. -/
def Uri.block (u : Uri) : List UInt8 := u.name ++ 0 :: (u.params.flatMap paramBytes ++ [0])

theorem cstring_append {z : List UInt8} (h : IsText z) (rest : List UInt8) :
    cstring (z ++ 0 :: rest) = z := by
  have hall : ∀ b ∈ z, decide (b ≠ 0) = true := by
    intro b hb
    have hne : b ≠ 0 := fun h0 => h.1 (h0 ▸ hb)
    simpa using hne
  rw [cstring, List.takeWhile_append_of_pos hall]
  simp

theorem skipString_append {z : List UInt8} (h : IsText z) (rest : List UInt8) :
    skipString (z ++ 0 :: rest) = rest := by
  rw [skipString, sqlite3Strlen30, cstring_append h, Nat.mod_eq_of_lt h.2]
  rw [← List.drop_drop, List.drop_left]
  rfl

/-- The loop finds the first value under a name. -/
theorem uriParameterLoop_eq {params : List (List UInt8 × List UInt8)} (zParam : List UInt8)
    (h : ∀ p ∈ params, p.1 ≠ [] ∧ IsText p.1 ∧ IsText p.2) {n : Nat} (hn : params.length < n) :
    (uriParameterLoop zParam n (params.flatMap paramBytes ++ [0])).map cstring =
      params.lookup zParam := by
  induction params generalizing n with
  | nil =>
    obtain ⟨n, rfl⟩ := Nat.exists_eq_succ_of_ne_zero (Nat.ne_of_gt hn)
    rfl
  | cons p params ih =>
    obtain ⟨key, value⟩ := p
    obtain ⟨n, rfl⟩ := Nat.exists_eq_succ_of_ne_zero (Nat.ne_zero_of_lt hn)
    obtain ⟨hne, hkey, hvalue⟩ := h (key, value) List.mem_cons_self
    have hih := ih (fun q hq => h q (List.mem_cons_of_mem _ hq)) (n := n)
      (by rw [List.length_cons] at hn; omega)
    simp only at hne hkey hvalue
    have hblock : ((key, value) :: params).flatMap paramBytes ++ [0] =
        key ++ 0 :: (value ++ 0 :: (params.flatMap paramBytes ++ [0])) := by
      simp [paramBytes]
    have hhead : (key ++ 0 :: (value ++ 0 :: (params.flatMap paramBytes ++ [0]))).headD 0 ≠ 0 := by
      match key, hne, hkey with
      | b :: key, _, hkey =>
        intro hb
        exact hkey.1 (by simp at hb; simp [hb])
    rw [hblock, uriParameterLoop, if_neg hhead]
    simp only [skipString_append hkey, cstring_append hkey, skipString_append hvalue,
      List.lookup_cons]
    by_cases hk : key = zParam
    · rw [if_pos hk, Option.map_some, cstring_append hvalue]
      simp [hk]
    · rw [if_neg hk, hih]
      have hbeq : (zParam == key) = false := by simpa using fun he => hk he.symm
      rw [hbeq]

theorem length_le_length_flatMap (params : List (List UInt8 × List UInt8)) :
    params.length ≤ (params.flatMap paramBytes).length := by
  induction params with
  | nil => exact Nat.le_refl _
  | cons p params ih =>
    rw [List.flatMap_cons, List.length_append, List.length_cons]
    have hp : 0 < (paramBytes p).length := by simp [paramBytes]
    omega

theorem length_params_lt (u : Uri) : u.params.length < u.block.length := by
  have hle := length_le_length_flatMap u.params
  rw [Uri.block]
  simp only [List.length_append, List.length_cons, List.length_nil]
  omega

/-- A query parameter is the first one with its name. -/
theorem sqlite3UriParameter_block (u : Uri) (zParam : List UInt8) :
    (sqlite3UriParameter u.block zParam).map cstring = u.params.lookup zParam := by
  have hloop := uriParameterLoop_eq zParam u.params_isText (length_params_lt u)
  rw [sqlite3UriParameter]
  rw [show skipString u.block = u.params.flatMap paramBytes ++ [0] from
    skipString_append u.name_isText _]
  exact hloop

end NdsDevkit.Compress
