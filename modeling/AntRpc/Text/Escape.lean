/-
The escapers of texts that may hold what a peer sent: `Quote`
(logging/logging.hpp) for log lines, `EscapeJson` and
`EscapePrometheusLabel` (rpc/server/admin_server.hpp) for the admin
server's answers.

A string is its bytes. Each escaper appends what it makes of one byte to
its result, from the first byte to the last.
-/
import AntRpc.Protocol.Basic

namespace AntRpc.Text

open Protocol (Bytes)

/-- A text of the source. -/
def ascii (text : String) : Bytes :=
  text.toList.map fun c => UInt8.ofNat c.toNat

/-- `hex[]`: the digits `0`..`9`, `a`..`f`. -/
def hex : Bytes :=
  [48, 49, 50, 51, 52, 53, 54, 55, 56, 57, 97, 98, 99, 100, 101, 102]

/-- `hex[n]`. -/
def hexDigit (n : UInt8) : UInt8 := hex.getD n.toNat 0

def doubleQuote : UInt8 := 34
def backslash : UInt8 := 92
def newline : UInt8 := 10

/-- What `Quote` appends for one byte. -/
def quoteByte (c : UInt8) : Bytes :=
  (if c = doubleQuote ∨ c = backslash then [backslash] else [])
    ++ if c < 32 ∨ c = 127 then
        -- \x and two digits
        [backslash, 120, hexDigit (c >>> 4), hexDigit (c &&& 15)]
      else [c]

/-- `logging::Quote`. -/
def quote (text : Bytes) : Bytes :=
  [doubleQuote] ++ text.flatMap quoteByte ++ [doubleQuote]

/-- What `EscapeJson` appends for one byte. -/
def jsonByte (c : UInt8) : Bytes :=
  if c = doubleQuote ∨ c = backslash then [backslash, c]
  else if c < 0x20 then
    -- \u00 and two digits
    [backslash, 117, 48, 48, hexDigit (c >>> 4), hexDigit (c &&& 15)]
  else [c]

/-- `EscapeJson`. -/
def escapeJson (value : Bytes) : Bytes := value.flatMap jsonByte

/-- What `EscapePrometheusLabel` appends for one byte. -/
def labelByte (c : UInt8) : Bytes :=
  if c = backslash then [backslash, backslash]
  else if c = doubleQuote then [backslash, doubleQuote]
  else if c = newline then [backslash, 110]
  else [c]

/-- `EscapePrometheusLabel`. -/
def escapePrometheusLabel (value : Bytes) : Bytes := value.flatMap labelByte

end AntRpc.Text
