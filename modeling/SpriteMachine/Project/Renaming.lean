/-!
The blocks of version 2 documents by the names that they have since. Their arguments have no names, so for
each block it is said where its arguments go.
-/

namespace SpriteMachine.Nested

inductive ArgumentPlace where
  | input (slot : String)
  /-- A slot whose literals are blocks of a menu. -/
  | menu (slot menu : String)
  | field (name : String)
  | variableName
  | listName
  | message
  | substack (slot : String)
  deriving DecidableEq, Repr

structure Renamed where
  opcode : String
  places : List ArgumentPlace
  /-- A field that the old name implies. -/
  implied : Option (String × String)
  deriving Repr

def renamings : List (String × Renamed) := [
  ("forward:",⟨"motion_movesteps",[.input "STEPS"],none⟩),
  ("turnRight:",⟨"motion_turnright",[.input "DEGREES"],none⟩),
  ("turnLeft:",⟨"motion_turnleft",[.input "DEGREES"],none⟩),
  ("heading:",⟨"motion_pointindirection",[.input "DIRECTION"],none⟩),
  ("pointTowards:",⟨"motion_pointtowards",[.menu "TOWARDS" "motion_pointtowards_menu"],none⟩),
  ("gotoX:y:",⟨"motion_gotoxy",[.input "X",.input "Y"],none⟩),
  ("gotoSpriteOrMouse:",⟨"motion_goto",[.menu "TO" "motion_goto_menu"],none⟩),
  ("glideSecs:toX:y:elapsed:from:",⟨"motion_glidesecstoxy",[.input "SECS",.input "X",.input "Y"],none⟩),
  ("changeXposBy:",⟨"motion_changexby",[.input "DX"],none⟩),
  ("xpos:",⟨"motion_setx",[.input "X"],none⟩),
  ("changeYposBy:",⟨"motion_changeyby",[.input "DY"],none⟩),
  ("ypos:",⟨"motion_sety",[.input "Y"],none⟩),
  ("bounceOffEdge",⟨"motion_ifonedgebounce",[],none⟩),
  ("setRotationStyle",⟨"motion_setrotationstyle",[.field "STYLE"],none⟩),
  ("xpos",⟨"motion_xposition",[],none⟩),
  ("ypos",⟨"motion_yposition",[],none⟩),
  ("heading",⟨"motion_direction",[],none⟩),
  ("lookLike:",⟨"looks_switchcostumeto",[.menu "COSTUME" "looks_costume"],none⟩),
  ("nextCostume",⟨"looks_nextcostume",[],none⟩),
  ("startScene",⟨"looks_switchbackdropto",[.menu "BACKDROP" "looks_backdrops"],none⟩),
  ("nextScene",⟨"looks_nextbackdrop",[],none⟩),
  ("say:duration:elapsed:from:",⟨"looks_sayforsecs",[.input "MESSAGE",.input "SECS"],none⟩),
  ("say:",⟨"looks_say",[.input "MESSAGE"],none⟩),
  ("think:duration:elapsed:from:",⟨"looks_thinkforsecs",[.input "MESSAGE",.input "SECS"],none⟩),
  ("think:",⟨"looks_think",[.input "MESSAGE"],none⟩),
  ("changeGraphicEffect:by:",⟨"looks_changeeffectby",[.field "EFFECT",.input "CHANGE"],none⟩),
  ("setGraphicEffect:to:",⟨"looks_seteffectto",[.field "EFFECT",.input "VALUE"],none⟩),
  ("filterReset",⟨"looks_cleargraphiceffects",[],none⟩),
  ("changeSizeBy:",⟨"looks_changesizeby",[.input "CHANGE"],none⟩),
  ("setSizeTo:",⟨"looks_setsizeto",[.input "SIZE"],none⟩),
  ("show",⟨"looks_show",[],none⟩),
  ("hide",⟨"looks_hide",[],none⟩),
  ("comeToFront",⟨"looks_gotofrontback",[],some ("FRONT_BACK","front")⟩),
  ("goBackByLayers:",⟨"looks_goforwardbackwardlayers",
    [.input "NUM"],some ("FORWARD_BACKWARD","backward")⟩),
  ("costumeIndex",⟨"looks_costumenumbername",[],some ("NUMBER_NAME","number")⟩),
  ("costumeName",⟨"looks_costumenumbername",[],some ("NUMBER_NAME","name")⟩),
  ("backgroundIndex",⟨"looks_backdropnumbername",[],some ("NUMBER_NAME","number")⟩),
  ("sceneName",⟨"looks_backdropnumbername",[],some ("NUMBER_NAME","name")⟩),
  ("scale",⟨"looks_size",[],none⟩),
  ("playSound:",⟨"sound_play",[.menu "SOUND_MENU" "sound_sounds_menu"],none⟩),
  ("doPlaySoundAndWait",⟨"sound_playuntildone",[.menu "SOUND_MENU" "sound_sounds_menu"],none⟩),
  ("stopAllSounds",⟨"sound_stopallsounds",[],none⟩),
  ("changeVolumeBy:",⟨"sound_changevolumeby",[.input "VOLUME"],none⟩),
  ("setVolumeTo:",⟨"sound_setvolumeto",[.input "VOLUME"],none⟩),
  ("volume",⟨"sound_volume",[],none⟩),
  ("playDrum",⟨"music_playDrumForBeats",[.menu "DRUM" "music_menu_DRUM",.input "BEATS"],none⟩),
  ("rest:elapsed:from:",⟨"music_restForBeats",[.input "BEATS"],none⟩),
  ("noteOn:duration:elapsed:from:",⟨"music_playNoteForBeats",[.input "NOTE",.input "BEATS"],none⟩),
  ("instrument:",⟨"music_setInstrument",[.menu "INSTRUMENT" "music_menu_INSTRUMENT"],none⟩),
  ("changeTempoBy:",⟨"music_changeTempo",[.input "TEMPO"],none⟩),
  ("setTempoTo:",⟨"music_setTempo",[.input "TEMPO"],none⟩),
  ("tempo",⟨"music_getTempo",[],none⟩),
  ("clearPenTrails",⟨"pen_clear",[],none⟩),
  ("stampCostume",⟨"pen_stamp",[],none⟩),
  ("putPenDown",⟨"pen_penDown",[],none⟩),
  ("putPenUp",⟨"pen_penUp",[],none⟩),
  ("penColor:",⟨"pen_setPenColorToColor",[.input "COLOR"],none⟩),
  ("changePenHueBy:",⟨"pen_changePenHueBy",[.input "HUE"],none⟩),
  ("setPenHueTo:",⟨"pen_setPenHueToNumber",[.input "HUE"],none⟩),
  ("changePenShadeBy:",⟨"pen_changePenShadeBy",[.input "SHADE"],none⟩),
  ("setPenShadeTo:",⟨"pen_setPenShadeToNumber",[.input "SHADE"],none⟩),
  ("changePenSizeBy:",⟨"pen_changePenSizeBy",[.input "SIZE"],none⟩),
  ("penSize:",⟨"pen_setPenSizeTo",[.input "SIZE"],none⟩),
  ("broadcast:",⟨"event_broadcast",[.message],none⟩),
  ("doBroadcastAndWait",⟨"event_broadcastandwait",[.message],none⟩),
  ("wait:elapsed:from:",⟨"control_wait",[.input "DURATION"],none⟩),
  ("doRepeat",⟨"control_repeat",[.input "TIMES",.substack "SUBSTACK"],none⟩),
  ("doForever",⟨"control_forever",[.substack "SUBSTACK"],none⟩),
  ("doIf",⟨"control_if",[.input "CONDITION",.substack "SUBSTACK"],none⟩),
  ("doIfElse",⟨"control_if_else",[.input "CONDITION",.substack "SUBSTACK",.substack "SUBSTACK2"],none⟩),
  ("doWaitUntil",⟨"control_wait_until",[.input "CONDITION"],none⟩),
  ("doUntil",⟨"control_repeat_until",[.input "CONDITION",.substack "SUBSTACK"],none⟩),
  ("doWhile",⟨"control_while",[.input "CONDITION",.substack "SUBSTACK"],none⟩),
  ("warpSpeed",⟨"control_all_at_once",[.substack "SUBSTACK"],none⟩),
  ("stopScripts",⟨"control_stop",[.field "STOP_OPTION"],none⟩),
  ("createCloneOf",⟨"control_create_clone_of",[.menu "CLONE_OPTION" "control_create_clone_of_menu"],none⟩),
  ("deleteClone",⟨"control_delete_this_clone",[],none⟩),
  ("COUNT",⟨"control_get_counter",[],none⟩),
  ("INCR_COUNT",⟨"control_incr_counter",[],none⟩),
  ("CLR_COUNT",⟨"control_clear_counter",[],none⟩),
  ("doAsk",⟨"sensing_askandwait",[.input "QUESTION"],none⟩),
  ("answer",⟨"sensing_answer",[],none⟩),
  ("touching:",⟨"sensing_touchingobject",[.menu "TOUCHINGOBJECTMENU" "sensing_touchingobjectmenu"],none⟩),
  ("touchingColor:",⟨"sensing_touchingcolor",[.input "COLOR"],none⟩),
  ("color:sees:",⟨"sensing_coloristouchingcolor",[.input "COLOR",.input "COLOR2"],none⟩),
  ("distanceTo:",⟨"sensing_distanceto",[.menu "DISTANCETOMENU" "sensing_distancetomenu"],none⟩),
  ("keyPressed:",⟨"sensing_keypressed",[.menu "KEY_OPTION" "sensing_keyoptions"],none⟩),
  ("mousePressed",⟨"sensing_mousedown",[],none⟩),
  ("mouseX",⟨"sensing_mousex",[],none⟩),
  ("mouseY",⟨"sensing_mousey",[],none⟩),
  ("soundLevel",⟨"sensing_loudness",[],none⟩),
  ("timer",⟨"sensing_timer",[],none⟩),
  ("timerReset",⟨"sensing_resettimer",[],none⟩),
  ("getAttribute:of:",⟨"sensing_of",[.field "PROPERTY",.menu "OBJECT" "sensing_of_object_menu"],none⟩),
  ("timeAndDate",⟨"sensing_current",[.field "CURRENTMENU"],none⟩),
  ("timestamp",⟨"sensing_dayssince2000",[],none⟩),
  ("getUserName",⟨"sensing_username",[],none⟩),
  ("+",⟨"operator_add",[.input "NUM1",.input "NUM2"],none⟩),
  ("-",⟨"operator_subtract",[.input "NUM1",.input "NUM2"],none⟩),
  ("*",⟨"operator_multiply",[.input "NUM1",.input "NUM2"],none⟩),
  ("/",⟨"operator_divide",[.input "NUM1",.input "NUM2"],none⟩),
  ("%",⟨"operator_mod",[.input "NUM1",.input "NUM2"],none⟩),
  ("randomFrom:to:",⟨"operator_random",[.input "FROM",.input "TO"],none⟩),
  ("<",⟨"operator_lt",[.input "OPERAND1",.input "OPERAND2"],none⟩),
  (">",⟨"operator_gt",[.input "OPERAND1",.input "OPERAND2"],none⟩),
  ("=",⟨"operator_equals",[.input "OPERAND1",.input "OPERAND2"],none⟩),
  ("&",⟨"operator_and",[.input "OPERAND1",.input "OPERAND2"],none⟩),
  ("|",⟨"operator_or",[.input "OPERAND1",.input "OPERAND2"],none⟩),
  ("not",⟨"operator_not",[.input "OPERAND"],none⟩),
  ("concatenate:with:",⟨"operator_join",[.input "STRING1",.input "STRING2"],none⟩),
  ("letter:of:",⟨"operator_letter_of",[.input "LETTER",.input "STRING"],none⟩),
  ("stringLength:",⟨"operator_length",[.input "STRING"],none⟩),
  ("rounded",⟨"operator_round",[.input "NUM"],none⟩),
  ("computeFunction:of:",⟨"operator_mathop",[.field "OPERATOR",.input "NUM"],none⟩),
  ("setVar:to:",⟨"data_setvariableto",[.variableName,.input "VALUE"],none⟩),
  ("changeVar:by:",⟨"data_changevariableby",[.variableName,.input "VALUE"],none⟩),
  ("showVariable:",⟨"data_showvariable",[.variableName],none⟩),
  ("hideVariable:",⟨"data_hidevariable",[.variableName],none⟩),
  ("append:toList:",⟨"data_addtolist",[.input "ITEM",.listName],none⟩),
  ("deleteLine:ofList:",⟨"data_deleteoflist",[.input "INDEX",.listName],none⟩),
  ("insert:at:ofList:",⟨"data_insertatlist",[.input "ITEM",.input "INDEX",.listName],none⟩),
  ("setLine:ofList:to:",⟨"data_replaceitemoflist",[.input "INDEX",.listName,.input "ITEM"],none⟩),
  ("getLine:ofList:",⟨"data_itemoflist",[.input "INDEX",.listName],none⟩),
  ("lineCountOfList:",⟨"data_lengthoflist",[.listName],none⟩),
  ("list:contains:",⟨"data_listcontainsitem",[.listName,.input "ITEM"],none⟩),
  ("showList:",⟨"data_showlist",[.listName],none⟩),
  ("hideList:",⟨"data_hidelist",[.listName],none⟩)]

end SpriteMachine.Nested
