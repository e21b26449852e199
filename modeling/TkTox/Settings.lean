import TkTox.Decimal
import TkTox.Lines

/-!
The settings sidecar `<profile>.tt`: three groups, one line each, written by three functions that
each rewrite their own line and copy the others, and read by two.
-/

namespace TkTox

structure TTSettings where
  proxySet : Bool
  proxyHost : Bytes
  proxyPort : ℤ
  history : Bool
deriving DecidableEq

def TTSettings.zero : TTSettings := ⟨false, [], 0, false⟩

abbrev E2eeRequired := Fin 256 → Bool

def wordProxy : Bytes := [112, 114, 111, 120, 121]
def wordNoproxy : Bytes := [110, 111, 112, 114, 111, 120, 121]
def wordHistory : Bytes := [104, 105, 115, 116, 111, 114, 121]
def wordE2ee : Bytes := [101, 50, 101, 101]
def wordOn : Bytes := [111, 110]
def wordOff : Bytes := [111, 102, 102]

def startsWith (word line : Bytes) : Bool := word.isPrefixOf line

def longMax : ℕ := 2 ^ 63 - 1

-- `strtol` after the sign, base ten: saturated at `LONG_MAX` and `LONG_MIN`.
def strtol (neg : Bool) (ds : Bytes) : ℤ :=
  if neg then -(min (digitsValue ds) (longMax + 1) : ℕ) else (min (digitsValue ds) longMax : ℕ)

def scanLd (b : Bytes) : Option ℤ :=
  let b := b.dropWhile isSpace
  let neg := b.head? == some 45
  let b := if b.head? = some 45 ∨ b.head? = some 43 then b.tail else b
  let ds := b.takeWhile isDigit
  if ds = [] then none else some (strtol neg ds)

def scanS (width : ℕ) (b : Bytes) : Option (Bytes × Bytes) :=
  let b := b.dropWhile isSpace
  let w := (b.take width).takeWhile (!isSpace ·)
  if w = [] then none else some (w, b.drop w.length)

def scanProxy (line : Bytes) : Option (Bytes × ℤ) :=
  if !startsWith wordProxy line then none
  else match scanS 63 (line.drop wordProxy.length) with
    | none => none
    | some (host, rest) => (scanLd rest).map fun port => (host, port)

def scanHistory (line : Bytes) : Option Bytes :=
  (scanS 15 (line.drop wordHistory.length)).map Prod.fst

def settingsLine (s : TTSettings) (line : Bytes) : TTSettings :=
  match scanProxy line with
  | some (host, port) => { s with proxySet := true, proxyHost := host, proxyPort := port }
  | none =>
    if startsWith wordHistory line then
      match scanHistory line with
      | some v => { s with history := decide (v = wordOn) }
      | none => s
    else s

def ttSettingsLoad (file : Option Bytes) : TTSettings :=
  match file with
  | none => .zero
  | some p => (fgetsLines 128 p).foldl settingsLine .zero

def requireFriend (required : E2eeRequired) (fn : ℤ) : E2eeRequired :=
  fun k => if (k.val : ℤ) = fn then true else required k

def readRequired : ℕ → Bytes → E2eeRequired → E2eeRequired
  | 0, _, required => required
  | n + 1, p, required =>
    let p := p.dropWhile fun b => b = 32 || b = 9
    let ds := p.takeWhile isDigit
    if ds = [] then required
    else readRequired n (p.drop ds.length) (requireFriend required (strtol false ds))

def ttSettingsLoadE2ee (file : Option Bytes) : E2eeRequired :=
  match file with
  | none => fun _ => false
  | some p =>
    match (fgetsLines 512 p).find? (startsWith wordE2ee) with
    | none => fun _ => false
    | some line => readRequired line.length (line.drop wordE2ee.length) fun _ => false

def keptLines (size : ℕ) (words : List Bytes) (file : Option Bytes) : Bytes :=
  match file with
  | none => []
  | some p => ((fgetsLines size p).filter fun line => words.any (startsWith · line)).flatten

def decimalLd (v : ℤ) : Bytes := if v < 0 then 45 :: decimal v.natAbs else decimal v.natAbs

def proxyLine (host : Bytes) (port : ℤ) : Bytes :=
  if host ≠ [] then wordProxy ++ 32 :: (host ++ 32 :: (decimalLd port ++ [10])) else wordNoproxy ++ [10]

def ttSettingsStoreProxy (file : Option Bytes) (host : Bytes) (port : ℤ) : Bytes :=
  proxyLine host port ++ keptLines 512 [wordHistory, wordE2ee] file

def historyLine (on : Bool) : Bytes := wordHistory ++ 32 :: ((if on then wordOn else wordOff) ++ [10])

def ttSettingsStoreHistory (file : Option Bytes) (on : Bool) : Bytes :=
  keptLines 512 [wordProxy, wordNoproxy, wordE2ee] file ++ historyLine on

def enforced (required : E2eeRequired) : List ℕ :=
  ((List.finRange 256).filter fun fn => required fn).map Fin.val

def e2eeLine (required : E2eeRequired) : Bytes :=
  if enforced required = [] then []
  else wordE2ee ++ ((enforced required).flatMap (fun fn => 32 :: decimal fn) ++ [10])

def ttSettingsStoreE2ee (file : Option Bytes) (required : E2eeRequired) : Bytes :=
  keptLines 128 [wordProxy, wordNoproxy, wordHistory] file ++ e2eeLine required

-- A proxy setting as the callers pass it: a C string without blanks that fits the 64-byte field,
-- and a `long`. The empty host switches the proxy off.
structure ProxySetting where
  host : Bytes
  port : ℤ
  host_length : host.length ≤ 63
  host_plain : ∀ b ∈ host, isSpace b = false ∧ b ≠ 0
  port_long : -2 ^ 63 ≤ port ∧ port < 2 ^ 63

inductive SettingsOp
  | storeProxy (proxy : ProxySetting)
  | storeHistory (on : Bool)
  | storeE2ee (required : E2eeRequired)

def settingsStep (file : Option Bytes) : SettingsOp → Option Bytes
  | .storeProxy proxy => some (ttSettingsStoreProxy file proxy.host proxy.port)
  | .storeHistory on => some (ttSettingsStoreHistory file on)
  | .storeE2ee required => some (ttSettingsStoreE2ee file required)

def settingsRun (ops : List SettingsOp) : Option Bytes := ops.foldl settingsStep none

structure StoredSettings where
  proxy : Option ProxySetting
  history : Bool
  required : E2eeRequired

def storedStep (s : StoredSettings) : SettingsOp → StoredSettings
  | .storeProxy proxy => { s with proxy := some proxy }
  | .storeHistory on => { s with history := on }
  | .storeE2ee required => { s with required := required }

def stored (ops : List SettingsOp) : StoredSettings :=
  ops.foldl storedStep ⟨none, false, fun _ => false⟩

def StoredSettings.settings (s : StoredSettings) : TTSettings :=
  match s.proxy with
  | none => ⟨false, [], 0, s.history⟩
  | some p =>
    if p.host = [] then ⟨false, [], 0, s.history⟩ else ⟨true, p.host, p.port, s.history⟩

def SettingsKept (ops : List SettingsOp) : Prop :=
  ttSettingsLoad (settingsRun ops) = (stored ops).settings ∧
    ttSettingsLoadE2ee (settingsRun ops) = (stored ops).required

end TkTox
