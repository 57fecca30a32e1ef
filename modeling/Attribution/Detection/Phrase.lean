/-
  Attribution.Detection.Phrase — phrases by which license texts are known.

  Letters are compared without regard to case, and a space in a phrase stands for
  any stretch of white space. The GNU titles count only at the start of a line,
  since the texts of that family name each other. The phrases stand in the order
  in which they are tried; the first that occurs decides.
-/
import Attribution.Pattern

namespace Attribution

open Text

structure Phrase where
  id : Text
  pattern : Pattern

namespace Phrase

open Pattern

/-- Letters without their case. The long s and the Kelvin sign fold to `s` and
    `k`; no other character outside ASCII folds to an ASCII letter. -/
def fold (c : Char) : Char :=
  if c == '\u017F' then 's' else if c == '\u212A' then 'k' else c.toLower

def sameLetter (c d : Char) : Bool := fold c == fold d

def gap : Pattern := seq (one isBlank) (many isBlank)

/-- The characters of a text in any letter case; a space is a gap. -/
def spelled (s : Text) : Pattern :=
  seqAll (s.map fun c => if c == ' ' then gap else one (sameLetter c))

def comma : Pattern := opt (spelled ",".toList)

def title (s : Text) : Pattern := seqAll [lineStart, many isBlank, spelled s]

def binaryForms : Pattern := spelled "Redistribution and use in source and binary forms".toList

def all : List Phrase :=
  [⟨"AGPL-3.0".toList, title "GNU AFFERO GENERAL PUBLIC LICENSE Version 3".toList⟩,
    ⟨"LGPL-2.1".toList, title "GNU LESSER GENERAL PUBLIC LICENSE Version 2.1".toList⟩,
    ⟨"LGPL-3.0".toList, title "GNU LESSER GENERAL PUBLIC LICENSE Version 3".toList⟩,
    ⟨"GPL-3.0".toList, title "GNU GENERAL PUBLIC LICENSE Version 3".toList⟩,
    ⟨"GPL-2.0".toList, title "GNU GENERAL PUBLIC LICENSE Version 2".toList⟩,
    ⟨"LGPL-2.0".toList, title "GNU LIBRARY GENERAL PUBLIC LICENSE Version 2".toList⟩,
    ⟨"MPL-2.0".toList, seqAll [spelled "Mozilla Public License".toList, comma, gap,
      alt (seq (spelled "v.".toList) (many isBlank)) (spelled "Version ".toList), spelled "2.0".toList]⟩,
    ⟨"Apache-2.0".toList, seqAll [spelled "Apache License".toList, comma, spelled " Version 2.0".toList]⟩,
    ⟨"BSL-1.0".toList, spelled "Boost Software License".toList⟩,
    ⟨"curl".toList, spelled "COPYRIGHT AND PERMISSION NOTICE".toList⟩,
    ⟨"Unlicense".toList,
      spelled "This is free and unencumbered software released into the public domain".toList⟩,
    ⟨"Zlib".toList,
      spelled "This software is provided 'as-is', without any express or implied warranty".toList⟩,
    ⟨"ISC".toList, seqAll [spelled "Permission to use, copy, modify, and".toList, opt (spelled "/or".toList),
      spelled " distribute this software for any purpose".toList]⟩,
    ⟨"MIT".toList, spelled "Permission is hereby granted, free of charge".toList⟩,
    ⟨"BSD-3-Clause".toList, seqAll [binaryForms, many fun _ => true, spelled "Neither the name".toList]⟩,
    ⟨"BSD-2-Clause".toList, binaryForms⟩]

end Phrase

end Attribution
