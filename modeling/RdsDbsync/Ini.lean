/-
  The configuration file (`ini.c`, with `Config::Get` and `get_config` of `readcfg.cpp`),
  for a file that can be read.

  The file is loaded into a buffer, which `split_data` cuts into section headers, keys and
  values in place; `ini_get` walks over these strings.
-/
import RdsDbsync.Message

namespace RdsDbsync

open Bytes

/-- The blanks that are skipped and trimmed within a line. -/
def isPadding (c : UInt8) : Bool := c == ch ' ' || c == ch '\t' || c == ch '\r'

/-- The characters over which `strcspn` goes. -/
def spans (reject : List UInt8) (c : UInt8) : Bool := c ≠ 0 && !reject.contains c

/-- `ini_t`; `end` points to the last byte of `data`. -/
structure IniT where
  data : Bytes
  deriving DecidableEq

namespace IniT

variable (ini : IniT)

/-- `ini->end - ini->data` -/
def endPos : ℕ := ini.data.length - 1

/-- `*p` -/
def read (p : ℕ) : Except Fault UInt8 :=
  if h : p < ini.data.length then .ok ini.data[p] else .error .bufferOverrun

/-- `*p = c` -/
def write (p : ℕ) (c : UInt8) : Except Fault IniT :=
  if p < ini.data.length then .ok ⟨ini.data.set p c⟩ else .error .bufferOverrun

/-- `strcspn(p, reject)` -/
def strcspn (p : ℕ) (reject : List UInt8) : Except Fault ℕ :=
  let n := ((ini.data.drop p).takeWhile (spans reject)).length
  if p + n < ini.data.length then .ok n else .error .bufferOverrun

/-! ## Splitting -/

/-- The loop of `discard_line`, `n` bytes before `end`. -/
def discardFrom : (n : ℕ) → IniT → (p : ℕ) → Except Fault (IniT × ℕ)
  | 0, ini, p => .ok (ini, p)
  | n + 1, ini, p => do
    if (← ini.read p) ≠ ch '\n' then discardFrom n (← ini.write p 0) (p + 1) else .ok (ini, p)

/-- `discard_line` -/
def discardLine (p : ℕ) : Except Fault (IniT × ℕ) := discardFrom (ini.endPos - p) ini p

/-- `trim_back`, with one more than its `p`, which may be before `data`. -/
def trimBack : IniT → ℕ → Except Fault IniT
  | ini, 0 => .ok ini
  | ini, p + 1 => do
    if isPadding (← ini.read p) then trimBack (← ini.write p 0) p else .ok ini

/-- The `do` loop over `=` and the blanks behind it, `n` bytes before `end`. -/
def skipEquals : (n : ℕ) → IniT → (p : ℕ) → Except Fault (IniT × ℕ)
  | 0, _, _ => .error .bufferOverrun
  | n + 1, ini, p => do
    let ini ← ini.write p 0
    if isPadding (← ini.read (p + 1)) then skipEquals n ini (p + 1) else .ok (ini, p + 1)

/-- What an escape stands for; `none` for `goto end`. -/
def escaped (c : UInt8) : Option UInt8 :=
  if c = ch 'r' then some (ch '\r')
  else if c = ch 'n' then some (ch '\n')
  else if c = ch 't' then some (ch '\t')
  else if c = ch '\r' ∨ c = ch '\n' ∨ c = 0 then none
  else some c

/-- The loop of `unescape_quoted_value`, with at least `end - p` steps left. -/
def unescapeFrom : (n : ℕ) → IniT → (q p : ℕ) → Except Fault (IniT × ℕ)
  | 0, ini, q, _ => .ok (ini, q)
  | n + 1, ini, q, p => do
    if p < ini.endPos then
      let c ← ini.read p
      if c = ch '"' ∨ c = ch '\r' ∨ c = ch '\n' then .ok (ini, q)
      else if c = ch '\\' then
        match escaped (← ini.read (p + 1)) with
        | none => .ok (ini, q)
        | some d => unescapeFrom n (← ini.write q d) (q + 1) (p + 2)
      else unescapeFrom n (← ini.write q c) (q + 1) (p + 1)
    else .ok (ini, q)

/-- `unescape_quoted_value` -/
def unescapeQuotedValue (p : ℕ) : Except Fault (IniT × ℕ) :=
  unescapeFrom (ini.endPos - p) ini p (p + 1)

/-- The value at `p` in the line from `lineStart` on. -/
def splitValue (lineStart p : ℕ) : Except Fault (IniT × ℕ) := do
  let c ← ini.read p
  if c = ch '\n' ∨ c = 0 then ini.discardLine lineStart
  else if c = ch '"' then
    let (ini, q) ← ini.unescapeQuotedValue p
    if q = p then ini.discardLine lineStart else ini.discardLine q
  else
    let n ← ini.strcspn p [ch '\n']
    .ok (← ini.trimBack (p + n), p + n)

/-- A line that is no header and no comment. -/
def splitLine (lineStart : ℕ) : Except Fault (IniT × ℕ) := do
  let n ← ini.strcspn lineStart [ch '=', ch '\n']
  if (← ini.read (lineStart + n)) ≠ ch '=' then ini.discardLine lineStart
  else
    let ini ← ini.trimBack (lineStart + n)
    let (ini, p) ← skipEquals (ini.endPos - (lineStart + n)) ini (lineStart + n)
    ini.splitValue lineStart p

/-- The body of the loop of `split_data`. -/
def splitStep (p : ℕ) : Except Fault (IniT × ℕ) := do
  let c ← ini.read p
  if c = ch '\r' ∨ c = ch '\n' ∨ c = ch '\t' ∨ c = ch ' ' then .ok (← ini.write p 0, p + 1)
  else if c = 0 then .ok (ini, p + 1)
  else if c = ch '[' then
    let n ← ini.strcspn p [ch ']', ch '\n']
    .ok (← ini.write (p + n) 0, p + n)
  else if c = ch ';' then ini.discardLine p
  else ini.splitLine p

/-- The loop of `split_data`.  The buffer ends before `fuel` steps do. -/
def splitFrom : (fuel : ℕ) → IniT → (p : ℕ) → Except Fault IniT
  | 0, _, _ => .error .bufferOverrun
  | fuel + 1, ini, p => do
    if p < ini.endPos then
      let (ini, p) ← ini.splitStep p
      splitFrom fuel ini p
    else .ok ini

/-- `split_data` -/
def splitData : Except Fault IniT := splitFrom (ini.endPos + 1) ini 0

/-! ## Looking up -/

/-- The C string at `p`. -/
def stringAt (p : ℕ) : Bytes := cstr (ini.data.drop p)

/-- The loop of `next`, `n` bytes before `end`. -/
def skipNuls : (n p : ℕ) → Except Fault ℕ
  | 0, p => .ok p
  | n + 1, p => do
    if (← ini.read p) = 0 then skipNuls n (p + 1) else .ok p

/-- `next` -/
def next (p : ℕ) : Except Fault ℕ := do
  let n ← ini.strcspn p []
  ini.skipNuls (ini.endPos - (p + n)) (p + n)

end IniT

/-- `tolower` in the C locale. -/
def toLower (c : UInt8) : UInt8 := if ch 'A' ≤ c ∧ c ≤ ch 'Z' then c + 32 else c

/-- `strcmpci`, on two C strings. -/
def strcmpci : Bytes → Bytes → ℤ
  | [], [] => 0
  | [], b :: _ => 0 - (toLower b).toNat
  | a :: _, [] => (toLower a).toNat
  | a :: s, b :: t =>
    let d := ((toLower a).toNat : ℤ) - (toLower b).toNat
    if d ≠ 0 then d else strcmpci s t

/-- The strings are the same but for the case of letters. -/
def sameName (a b : Bytes) : Bool := strcmpci a b == 0

namespace IniT

variable (ini : IniT) (sect : Option CString) (key : CString)

/-- The section that is looked up, or NULL for all. -/
def inSection (current : Bytes) : Bool :=
  match sect with
  | none => true
  | some s => sameName s.1 current

/-- The loop of `ini_get`.  The buffer ends before `fuel` steps do. -/
def getFrom : (fuel p : ℕ) → (current : Bytes) → Except Fault (Option Bytes)
  | 0, _, _ => .error .bufferOverrun
  | fuel + 1, p, current => do
    if p < ini.endPos then
      if (← ini.read p) = ch '[' then
        getFrom fuel (← ini.next p) (ini.stringAt (p + 1))
      else
        let val ← ini.next p
        if inSection sect current && sameName (ini.stringAt p) key.1 then .ok (some (ini.stringAt val))
        else getFrom fuel (← ini.next val) current
    else .ok none

/-- `ini_get` -/
def iniGet : Except Fault (Option Bytes) := do
  let p ← if (← ini.read 0) = 0 then ini.next 0 else .ok 0
  ini.getFrom sect key (ini.endPos + 1) p []

end IniT

/-- `ini_load`; `none` for NULL.  No memory is found for a size that overflows. -/
def iniLoad (content : Bytes) : Except Fault (Option IniT) :=
  let sz := toInt (content.length % 2 ^ 32)
  if sz < 0 then .ok none
  else if sz + 1 = 2 ^ 31 then .error .nullPointer
  else do
    let ini ← IniT.splitData ⟨content.take sz.toNat ++ [0]⟩
    .ok (some ini)

/-- `Config::Get` -/
def configGet (ini : IniT) (sec key : CString) (defaultvalue : Bytes) : Except Fault Bytes :=
  if key.1 = [] ∨ sec.1 = [] then .ok defaultvalue
  else do
    match ← ini.iniGet (some sec) key with
    | some tmp => .ok tmp
    | none => .ok defaultvalue

/-- `get_config`, with the string that `*value` is set to, if it is. -/
def getConfig (ini : IniT) (sec key : CString) : Except Fault (Option Bytes) := do
  let rc ← configGet ini sec key []
  if rc = [] then .ok none else .ok (some rc)

end RdsDbsync
