import Deferred.Text.Letter
import Deferred.Text.Number
import Deferred.Text.Ranges
import Deferred.Text.White

/-! The classes of characters. Which characters are white space, letters and numbers is for Unicode to say, and each of
its versions adds some. What is made of the classes knows them by their names only; the tables are one instance. -/

namespace Deferred.Text

/-- Which characters are white space, letters, and number characters of any script. -/
class Classes where
  isWhite : Char → Bool
  isLetter : Char → Bool
  isNumber : Char → Bool

export Classes (isWhite isLetter isNumber)

/-- The classes of Unicode 16. -/
instance unicode : Classes where
  isWhite c := inRanges whiteRanges c.toNat
  isLetter c := inRanges letterRanges c.toNat
  isNumber c := inRanges numberRanges c.toNat

def isAlphanumeric [Classes] (c : Char) : Bool :=
  isLetter c || isNumber c

def trimmed [Classes] (text : List Char) : List Char :=
  ((text.dropWhile isWhite).reverse.dropWhile isWhite).reverse

end Deferred.Text
