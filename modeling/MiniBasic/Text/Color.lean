/-!
# Colors

Bold colored text on a terminal, between the control sequences that turn the color on and off.
-/

namespace MiniBasic.Text

def bold (color : Nat) (text : String) : String :=
  s!"\x1b[1;{color}m{text}\x1b[0m"

def red : String → String := bold 31

def green : String → String := bold 32

end MiniBasic.Text
