import SourceChain.Config.Source
import SourceChain.Text.Blank
import SourceChain.Text.Decimal
import SourceChain.Text.Alphanumeric

/-!
# Log filters

A filter is a list of directives divided by commas. A directive is a level, or a target with the
level for it; a target alone lets everything of that target through. The most verbose level of all
directives is the most that the filter lets through.

The filter comes from the variable `RUST_LOG` if that is set and every directive in it reads, and
then lets nothing through if there is none. Otherwise it comes from the configured level, of which
the directives that do not read are left out, and lets errors through if none is left.

A directive with blanks around it is scanned without them, but cut as it stands. So blanks after a
level make it a target, and with blanks in front of a target the cut for its level misses the place.
Directives that name a span, in brackets, do not read here.
-/

namespace SourceChain.Config

/-- How verbose log lines may be. -/
inductive Verbosity where
  | off
  | error
  | warn
  | info
  | debug
  | trace
deriving DecidableEq, Repr

namespace Verbosity

/-- The word for a level. -/
def word : Verbosity → String
  | off => "off"
  | error => "error"
  | warn => "warn"
  | info => "info"
  | debug => "debug"
  | trace => "trace"

/-- The number for a level; the higher is the more verbose. -/
def rank : Verbosity → Nat
  | off => 0
  | error => 1
  | warn => 2
  | info => 3
  | debug => 4
  | trace => 5

/-- All levels. -/
def all : List Verbosity := [off, error, warn, info, debug, trace]

/-- The level that a numeral or a word in any case stands for. -/
def ofChars? (cs : List Char) : Option Verbosity :=
  match Text.word32? cs with
  | some n => all.find? fun level ↦ level.rank == n.toNat
  | none => all.find? fun level ↦ level.word == (String.ofList cs).toLower

/-- The more verbose of two levels. -/
def max (a b : Verbosity) : Verbosity :=
  if a.rank ≤ b.rank then b else a

end Verbosity

/-! ### Directives -/

/-- Why a directive gives no level. -/
inductive DirectiveFault where
  /-- It does not read. -/
  | unreadable
  /-- The place to cut it at lies inside a character. -/
  | brokenCharacter
deriving DecidableEq, Repr

/-- Whether a directive may start with the character. -/
def startsDirective (c : Char) : Bool :=
  Text.isAlphanumeric c || c == '-' || c == ':' || c == '_'

/-- How many octets characters take in UTF-8. -/
def octetCount : List Char → Nat
  | [] => 0
  | c :: cs => c.utf8Size + octetCount cs

/-- What is left after so many octets, if the cut falls between two characters. -/
def dropOctets? : Nat → List Char → Option (List Char)
  | 0, cs => some cs
  | _ + 1, [] => none
  | n + 1, c :: cs => if c.utf8Size ≤ n + 1 then dropOctets? (n + 1 - c.utf8Size) cs else none

/-- The level of a directive whose target takes so many octets. No level at all lets everything
through. -/
def levelAfter (target : Nat) (cs : List Char) : Except DirectiveFault Verbosity :=
  match dropOctets? target cs, dropOctets? (target + 1) cs with
  | some _, some [] => .ok .trace
  | some _, some level =>
    match Verbosity.ofChars? level with
    | some level => .ok level
    | none => .error .unreadable
  | _, _ => .error .brokenCharacter

/-- The level of a directive. -/
def directive (cs : List Char) : Except DirectiveFault Verbosity :=
  match Text.trim cs with
  | [] => .error .unreadable
  | c :: scanned =>
    if startsDirective c then
      let target := (c :: scanned).takeWhile fun c ↦ c ≠ '=' ∧ c ≠ '['
      match (c :: scanned).drop target.length with
      | [] => .ok ((Verbosity.ofChars? cs).getD .trace)
      | mark :: _ => if mark = '=' then levelAfter (octetCount target) cs else .error .unreadable
    else .error .unreadable

/-- The directives of a filter, without those that are empty. -/
def directives (text : String) : List (List Char) :=
  (text.toList.splitOn ',').filter (!·.isEmpty)

/-! ### Filters -/

/-- The levels of the directives that read. -/
def readableLevels : List (List Char) → Except DirectiveFault (List Verbosity)
  | [] => .ok []
  | cs :: rest =>
    match directive cs with
    | .ok level => (readableLevels rest).map (level :: ·)
    | .error .unreadable => readableLevels rest
    | .error .brokenCharacter => .error .brokenCharacter

/-- The most that directives let through together, or `unset` if there are none. -/
def mostVerbose (unset : Verbosity) : List Verbosity → Verbosity
  | [] => unset
  | levels => levels.foldl Verbosity.max .off

/-- The most that the log filter lets through, unless a directive breaks a character. -/
def maxVerbosity (environment : Environment) (level : String) : Except DirectiveFault Verbosity :=
  let configured := (readableLevels (directives level)).map (mostVerbose .error)
  match (environment "RUST_LOG").bind String.fromUTF8? with
  | none => configured
  | some text =>
    match (directives text).mapM directive with
    | .ok levels => .ok (mostVerbose .off levels)
    | .error .unreadable => configured
    | .error .brokenCharacter => .error .brokenCharacter

end SourceChain.Config
