import Atrib.Lib.Lines
import Atrib.Mcp.Hash

/-!
# Lines of a file

`readline` of Node on a file in UTF-8. A line ends at `\n`, `\r\n`, a lone
`\r`, U+2028 or U+2029; no other character has the bytes of one of these in its
encoding, so the bytes of a line can be looked at without decoding them.
-/

namespace Atrib

open Lib.Lines

def LF : UInt8 := 0x0a

/-- `\r\n`, `\n`, `\r`, U+2028, U+2029 -/
def readlineEnds : List Bytes :=
  [[0x0d, 0x0a], [0x0a], [0x0d], [0xe2, 0x80, 0xa8], [0xe2, 0x80, 0xa9]]

def readline (text : Bytes) : List Bytes := lines readlineEnds text

/-- `text.split('\n')` -/
def splitLF (text : Bytes) : List Bytes := lines [[LF]] text

theorem newline_readlineEnds : Newline readlineEnds LF := ⟨by decide, by decide, by decide⟩

end Atrib
