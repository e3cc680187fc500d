import Asterel.Library.Lines
import Asterel.Utils.CharBoundary

/-!
# The Markdown chunker

A text is split at its headings. A section that is too long is split at its blank lines, and a
paragraph that is too long at its lines. Short paragraphs are collected behind the heading of
their section until the next one no longer fits.
-/

namespace Asterel.MarkdownChunker

open Library Library.Lines
open Chunker (byteLength)

abbrev Chars := List Char

structure Chunk where
  index : Nat
  content : Chars
  heading : Option Chars
  deriving DecidableEq

def isHeading (line : Chars) : Bool :=
  "# ".toList.isPrefixOf line || "## ".toList.isPrefixOf line || "### ".toList.isPrefixOf line

/-- The sections that end before the lines that are left, and those in them. A blank text before
the first heading stays in front of what follows it. -/
def headingSections (heading : Option Chars) (body : Chars) : List Chars → List (Option Chars × Chars)
  | [] => if visible body || heading.isSome then [(heading, body)] else []
  | line :: rest =>
    if isHeading line then
      if visible body || heading.isSome then (heading, body) :: headingSections (some line) [] rest
      else headingSections (some line) body rest
    else headingSections heading (body ++ line ++ ['\n']) rest

def splitOnHeadings (text : Chars) : List (Option Chars × Chars) :=
  headingSections none [] (lines text)

def blankLineParagraphs (current : Chars) : List Chars → List Chars
  | [] => if visible current then [current] else []
  | line :: rest =>
    if visible line then blankLineParagraphs (current ++ line ++ ['\n']) rest
    else if visible current then current :: blankLineParagraphs [] rest
    else blankLineParagraphs current rest

def splitOnBlankLines (text : Chars) : List Chars := blankLineParagraphs [] (lines text)

def lineGroups (maxChars : Nat) (current : Chars) : List Chars → List Chars
  | [] => if current.isEmpty then [] else [current]
  | line :: rest =>
    if byteLength current + byteLength line + 1 > maxChars && !current.isEmpty then
      current :: lineGroups maxChars (line ++ ['\n']) rest
    else lineGroups maxChars (current ++ line ++ ['\n']) rest

def splitOnLines (text : Chars) (maxChars : Nat) : List Chars := lineGroups maxChars [] (lines text)

section Sections

variable (heading : Option Chars) (maxChars : Nat)

/-- What the accumulator starts with. -/
def restart : Chars := heading.elim [] (· ++ ['\n'])

/-- What is pushed when the accumulator is flushed, and what it holds then. -/
def flushed (flush : Bool) (current : Chars) : List Chars := if flush then [current] else []

def remaining (flush : Bool) (current : Chars) : Chars := if flush then restart heading else current

/-- The texts that are pushed for the paragraphs that are left, before they are trimmed. -/
def paragraphTexts (current : Chars) : List Chars → List Chars
  | [] => flushed (visible current) current
  | para :: rest =>
    let full := byteLength current + byteLength para > maxChars && visible current
    let next := remaining heading full current
    if byteLength para > maxChars then
      flushed full current ++ (flushed (visible next) next ++ (splitOnLines para maxChars ++
        paragraphTexts (remaining heading (visible next) next) rest))
    else flushed full current ++ paragraphTexts (next ++ para ++ ['\n']) rest

/-- The texts that are pushed for a section, before they are trimmed. -/
def sectionTexts (body : Chars) : List Chars :=
  let fullLen := heading.elim (byteLength body) fun h => byteLength h + 1 + byteLength body
  if fullLen ≤ maxChars then [restart heading ++ body]
  else paragraphTexts heading maxChars (restart heading) (splitOnBlankLines body)

end Sections

/-- The texts of all sections with their headings, before they are trimmed. -/
def pushedTexts (text : Chars) (maxChars : Nat) : List (Option Chars × Chars) :=
  (splitOnHeadings text).flatMap fun part =>
    (sectionTexts part.1 maxChars part.2).map fun pushed => (part.1, pushed)

/-- The index that a chunk is pushed with is overwritten at the end. -/
def chunkMarkdown (text : Chars) (maxTokens : Nat) : List Chunk :=
  if (Text.trim text).isEmpty then []
  else
    let pushed := (pushedTexts text (maxTokens * 4)).map fun entry => (entry.1, Text.trim entry.2)
    let retained := pushed.filter fun entry => !entry.2.isEmpty
    retained.zipIdx.map fun entry =>
      { index := entry.2, content := entry.1.2, heading := entry.1.1 }

end Asterel.MarkdownChunker
