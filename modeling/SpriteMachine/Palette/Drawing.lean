import SpriteMachine.Palette.Entry

/-!
Blocks for pens.
-/

namespace SpriteMachine.Palette

open Step Entry

def penUp : Recipe := fun _ =>
  [.emit .flush,.inputs,.callSelf]

def colourParam : Recipe := fun _ =>
  [text "COLOR_PARAM",number "VALUE",.callSelf]

def hue : Recipe := fun _ =>
  [pushText "color",number "HUE",pushNumber 0.5,op .multiply,.callSelf]

def shade : Recipe := fun _ =>
  [pushText "brightness",number "SHADE",.callSelf]

def pen : List Entry := [
  visible "pen_clear" [] .always (.pen .clear),
  visible "pen_stamp" [] .always (.pen .stamp),
  visible "pen_penDown" [] .always (.pen .down),
  statement "pen_penUp" penUp (some (.pen .up)),
  action "pen_setPenColorToColor" ["COLOR"] (.pen .setColour),
  statement "pen_setPenColorParamTo" colourParam (some (.pen (.setParam true))),
  statement "pen_changePenColorParamBy" colourParam (some (.pen (.changeParam true))),
  statement "pen_setPenHueToNumber" hue (some (.pen (.setParam false))),
  statement "pen_changePenHueBy" hue (some (.pen (.changeParam false))),
  statement "pen_setPenShadeToNumber" shade (some (.pen (.setParam false))),
  statement "pen_changePenShadeBy" shade (some (.pen (.changeParam false))),
  ofNumber "pen_setPenSizeTo" "SIZE" (.pen .setSize),
  ofNumber "pen_changePenSizeBy" "SIZE" (.pen .changeSize),
  menu "pen_menu_colorParam" "colorParam"]

end SpriteMachine.Palette
