import Netos.Core.LoadConfig
import Netos.Lib.Utf8

/-!
# The topology export

`_strip_quotes`, `parse_env_file` and `parse_neighbors` of `scripts/ns3/generate_topology.py`, which
read the env file of a node a second time. A `str` is a list of characters. The file is read as
UTF-8; bytes that are not UTF-8 raise an error, which is `none` here. Whitespace and line ends are
those of Python, of which there are more than in C.
-/

namespace Netos.GenerateTopology

open CString Cxx

/-- `str`. -/
abbrev Str := List Char

/-- The characters that `str.strip` removes. -/
def isWhitespace (c : Char) : Bool :=
  let n := c.toNat
  (9 ≤ n && n ≤ 13) || (28 ≤ n && n ≤ 32) || n == 0x85 || n == 0xa0 || n == 0x1680 ||
    (0x2000 ≤ n && n ≤ 0x200a) || n == 0x2028 || n == 0x2029 || n == 0x202f || n == 0x205f ||
    n == 0x3000

/-- The characters at which `str.splitlines` splits. -/
def isLineEnd (c : Char) : Bool :=
  let n := c.toNat
  (10 ≤ n && n ≤ 13) || (28 ≤ n && n ≤ 30) || n == 0x85 || n == 0x2028 || n == 0x2029

/-- `str.strip`. -/
def strip (s : Str) : Str := Blanks.strip isWhitespace s

/-- The universal newlines of a text file: a carriage return becomes a newline, together with the
newline after it if there is one. The flag says that the character before was a carriage return. -/
def universalNewlines : Bool → Str → Str
  | _, [] => []
  | afterReturn, c :: s =>
    if afterReturn && c == '\n' then universalNewlines false s
    else (if c == '\r' then '\n' else c) :: universalNewlines (c == '\r') s

/-- `Path.read_text`. -/
def readText (file : Bytes) : Option Str := (Utf8.decode file).map (universalNewlines false)

/-- `str.splitlines`, on a text without carriage returns: what stands after the last line end is a
line only if it is not empty. -/
def splitlines (s : Str) : List Str :=
  let lines := s.splitOnP isLineEnd
  if lines.getLast? = some [] then lines.dropLast else lines

/-- `_strip_quotes`. -/
def stripQuotes (value : Str) : Str :=
  if 2 ≤ value.length ∧ value.head? = value.getLast? ∧
      (value.head? = some '\'' ∨ value.head? = some '"') then
    (value.drop 1).take (value.length - 2)
  else value

/-- What the loop of `parse_env_file` makes of a line: a key and its value, if the line has them. -/
def parseEnvLine (raw_line : Str) : Option (Str × Str) :=
  let line := strip raw_line
  if line = [] ∨ line.head? = some '#' then none
  else
    match line.dropWhile (· != '=') with
    | [] => none
    | _ :: value => some (strip (line.takeWhile (· != '=')), stripQuotes (strip value))

/-- The loop of `parse_env_file`: a later line for a key replaces the earlier ones. -/
def parseEnvText (text : Str) : UnorderedMap Str Str :=
  ((splitlines text).filterMap parseEnvLine).foldl (fun env entry => env.insert entry.1 entry.2) ∅

/-- `parse_env_file`. -/
def parseEnvFile (file : Bytes) : Option (UnorderedMap Str Str) := (readText file).map parseEnvText

/-- What the loop of `parse_neighbors` makes of an item: the name of a neighbor and its port. -/
def parseNeighbor (item : Str) : Option (Str × Str) :=
  let token := strip item
  if token = [] then none
  else
    match token.dropWhile (· != ':') with
    | [] => some (token, [])
    | _ :: port => some (strip (token.takeWhile (· != ':')), strip port)

/-- `parse_neighbors`. -/
def parseNeighbors (value : Str) : List (Str × Str) := (value.splitOn ',').filterMap parseNeighbor

end Netos.GenerateTopology
