import TemplateTree.Pattern.Basic
import TemplateTree.Text.Word

/-!
# The words of templates

The patterns that the productions are written in. Those of one dialect carry its name.
-/

set_option autoImplicit false

namespace TemplateTree.Pattern

open Text

def indent : Pattern := many isIndent

/-- Code that is run: a hyphen that starts no comment. -/
def runMarker : Pattern := sequence [char '-', notAhead (char '#')]

def anything : Pattern := many (· != '\n')

def filterMarker : Pattern := sequence [char ':', captured anything]

/-- The modifier and the marker of an inline insert. -/
def inlineInsert : Pattern :=
  sequence [captured (atMostOne fun c => c == '&' || c == '!'),
    captured (orElse (word ['=', '=']) (satisfy fun c => c == '=' || c == '~')), blanks]

def quote : Pattern := char '"'

def symbol : Pattern := sequence [char ':', captured (some1 isWord)]

def shorthand : Pattern :=
  sequence [captured (satisfy fun c => c == '#' || c == '.'), captured (some1 isWordOrHyphen)]

def hashOpen : Pattern := sequence [char '{', blanks]

def hashClose : Pattern := char '}'

def hashArrow : Pattern := sequence [word ['=', '>'], blanks]

def hashSeparator : Pattern := sequence [char ',', blanks]

def htmlOpen : Pattern := sequence [char '(', blanks]

def htmlName : Pattern := some1 isAttributeName

def htmlEquals : Pattern := sequence [blanks, char '=', blanks]

def htmlClose : Pattern := sequence [blanks, char ')']

def htmlSeparator : Pattern := some1 isBlank

def objectOpen : Pattern := sequence [char '[', blanks]

def objectClose : Pattern := sequence [blanks, char ']', blanks]

def objectSeparator : Pattern := sequence [blanks, char ',', blanks]

/-- The start of a tag without a name: a shorthand follows. -/
def implicitTag : Pattern :=
  sequence
    [ahead (sequence [satisfy fun c => c == '.' || c == '#', satisfy isWordOrHyphen]), absent 1]

def hamlTag : Pattern := orElse (sequence [char '%', captured (some1 isTagName)]) implicitTag

def jadeTag : Pattern :=
  orElse (captured (sequence [satisfy isWord, many isTagName])) implicitTag

def hamlComment : Pattern := sequence [captured (orElse (word ['-', '#']) (char '/')), blanks]

def jadeComment : Pattern :=
  sequence [captured (orElse (word ['/', '/', '-']) (word ['/', '/'])), blanks]

/-- The rest of a doctype line: an id and options, or an id, or nothing, each after a separator. -/
def doctypeTail (separator : Pattern) : Pattern :=
  let id := captured (some1 fun c => !isBlank c)
  orElse (sequence [separator, id, separator, captured anything, atEnd])
    (orElse (sequence [separator, id, atEnd, absent 1]) (sequence [atEnd, absent 2]))

def hamlDoctype : Pattern := sequence [word ['!', '!', '!'], doctypeTail (satisfy isBlank)]

def jadeDoctype : Pattern :=
  sequence [orElse (word ['d', 'o', 'c', 't', 'y', 'p', 'e']) (word ['!', '!', '!']),
    doctypeTail (some1 isBlank)]

def pipe : Pattern := sequence [char '|', atMostOne isIndent]

/-- The start of literal markup, which is text too. -/
def markup : Pattern := ahead (char '<')

end TemplateTree.Pattern
