import Earley.Text.Ranges

namespace Earley.Text.Script

def greek : Ranges :=
  [(880, 883), (885, 887), (890, 893), (895, 895), (900, 900), (902, 902), (904, 906), (908, 908),
   (910, 929), (931, 993), (1008, 1023), (7462, 7466), (7517, 7521), (7526, 7530), (7615, 7615),
   (7936, 7957), (7960, 7965), (7968, 8005), (8008, 8013), (8016, 8023), (8025, 8025), (8027, 8027),
   (8029, 8029), (8031, 8061), (8064, 8116), (8118, 8132), (8134, 8147), (8150, 8155), (8157, 8175),
   (8178, 8180), (8182, 8190), (8486, 8486), (43877, 43877), (65856, 65934), (65952, 65952),
   (119296, 119365)]

def hebrew : Ranges :=
  [(1425, 1479), (1488, 1514), (1519, 1524), (64285, 64310), (64312, 64316), (64318, 64318),
   (64320, 64321), (64323, 64324), (64326, 64335)]

def hiragana : Ranges :=
  [(12353, 12438), (12445, 12447), (110593, 110879), (110898, 110898), (110928, 110930),
   (127488, 127488)]

def katakana : Ranges :=
  [(12449, 12538), (12541, 12543), (12784, 12799), (13008, 13054), (13056, 13143), (65382, 65391),
   (65393, 65437), (110576, 110579), (110581, 110587), (110589, 110590), (110592, 110592),
   (110880, 110882), (110933, 110933), (110948, 110951)]

def han : Ranges :=
  [(11904, 11929), (11931, 12019), (12032, 12245), (12293, 12293), (12295, 12295), (12321, 12329),
   (12344, 12347), (13312, 19903), (19968, 40959), (63744, 64109), (64112, 64217), (94178, 94179),
   (94192, 94193), (131072, 173791), (173824, 177977), (177984, 178205), (178208, 183969),
   (183984, 191456), (191472, 192093), (194560, 195101), (196608, 201546), (201552, 205743)]

end Earley.Text.Script
